import Noxara.GrantOutcomes

/-! Requests to the marketplace side by side: whether live tokens stay within the consent of their install, and
how often a code or a refresh token is exchanged. -/
namespace Noxara.Marketplace

open Authz Transaction
open Finance (Uuid Timestamp Formats PublicId AppError canonicalFormats)
open Workspace (TokenHash canonicalTokenHash)

def Db.Covers (db : Db) (id : Uuid) (scopes : List String) : Prop :=
  ∀ i, db.installs.find? id = some i → i.status = .active → ∀ p ∈ scopes, p ∈ i.consentedScopes

/-- Every live token has its install, and is within its consent. -/
def Db.Consented (db : Db) : Prop :=
  ∀ k r, db.tokens.find? k = some r → r.revokedAt = none →
    (db.installs.find? r.installId).isSome = true ∧ db.Covers r.installId r.scopes

section
variable {x : Trail Db RowKey} {s : Db} {P : AppTokenRow → Prop}
  {g : Table Uuid InstallRow → Table Uuid InstallRow}

/-- Live tokens of before were live before, and new ones are as the transaction adds them. -/
theorem Doing.consented (h : s.Consented) (hdoing : Doing g P x) (hgrows : Grows s (x.pend s))
    (hold : ∀ k r r', s.tokens.find? k = some r → (x.pend s).tokens.find? k = some r' → r'.revokedAt = none →
      r.revokedAt = none → s.Covers r.installId r.scopes → (x.pend s).Covers r.installId r.scopes)
    (hnew : ∀ r, P r → ((x.pend s).installs.find? r.installId).isSome = true ∧
      (x.pend s).Covers r.installId r.scopes) : (x.pend s).Consented := by
  intro k r' hr' hlive'
  rcases hdoing.tokens s k r' hr' with ⟨r, hr, hkept⟩ | hadded
  · have hlive : r.revokedAt = none := by
      cases hrevoked : r.revokedAt with
      | none => rfl
      | some at' =>
        have hdead := hkept.revoked (by rw [hrevoked]; rfl)
        rw [hlive'] at hdead
        cases hdead
    obtain ⟨hinstall, hcovers⟩ := h k r hr hlive
    rw [hkept.installId, hkept.scopes]
    exact ⟨hgrows.installs _ hinstall, hold k r r' hr hr' hlive' hlive hcovers⟩
  · exact hnew r' hadded

theorem Creating.consented {id : Uuid} {row : InstallRow} (h : s.Consented) (hc : Creating id row x s)
    (hgrows : Grows s (x.pend s)) : (x.pend s).Consented := by
  have hself : (x.pend s).installs.find? id = some row := by
    rw [hc.doing.installs]
    exact Table.find?_insert_self hc.new row
  refine hc.doing.consented h hgrows (fun k r r' hr _ _ hlive hcovers i hi => ?_) fun r hr => ?_
  · rw [hc.doing.installs] at hi
    rcases Table.find?_insert_some hi with hi | ⟨hid, _⟩
    · exact hcovers i hi
    · -- no token was there before its install
      have hsome := (h k r hr hlive).1
      rw [hid, hc.new] at hsome
      cases hsome
  · rw [hr.1, hr.2, hself]
    refine ⟨rfl, fun i hi _ p hp => ?_⟩
    cases hself.symm.trans hi
    exact hp

theorem Lapsing.consented (h : s.Consented) (hl : Lapsing x) (hgrows : Grows s (x.pend s)) :
    (x.pend s).Consented := by
  obtain ⟨g, hg, hdoing⟩ := hl
  refine hdoing.consented h hgrows (fun k r r' _ _ _ _ hcovers i hi hactive => ?_) fun _ hr => hr.elim
  rw [hdoing.installs] at hi
  exact hcovers i (hg _ _ i hi hactive) hactive

/-- A refresh keeps to the consent that it read where this is still given. -/
theorem Refreshing.consented {hash : String} {k id : Uuid} {scopes : List String} (h : s.Consented)
    (hr : Refreshing hash k id scopes x s) (hgrows : Grows s (x.pend s)) (hgiven : s.Covers id scopes) :
    (x.pend s).Consented := by
  have hsame : (x.pend s).installs = s.installs := hr.doing.installs s
  have hcovers : ∀ id scopes, s.Covers id scopes → (x.pend s).Covers id scopes := by
    intro id scopes hs i hi
    rw [hsame] at hi
    exact hs i hi
  refine hr.doing.consented h hgrows (fun _ r _ _ _ _ _ hold => hcovers _ _ hold) fun r hnew => ?_
  rw [hnew.1, hnew.2, hsame]
  exact ⟨hr.found, hcovers _ _ hgiven⟩

/-- A new consent is kept to where it has reached every live token that exceeds it. -/
theorem Renewing.consented {id : Uuid} {consented : List String} (h : s.Consented)
    (hr : Renewing id consented x s) (hgrows : Grows s (x.pend s))
    (hreached : (∃ i, s.installs.find? id = some i ∧ i.status = .active) → ∀ k r, s.tokens.find? k = some r →
      r.installId = id → r.revokedAt = none → .token k ∈ x.locks ∨ ∀ p ∈ r.scopes, p ∈ consented) :
    (x.pend s).Consented := by
  obtain ⟨i, hi⟩ := Option.isSome_iff_exists.mp hr.found
  have hself : (x.pend s).installs.find? id = some (i.setConsent consented) := by
    rw [hr.doing.installs, Table.find?_modify_self, hi]
    rfl
  refine hr.doing.consented h hgrows (fun k r r' hk hk' hlive' hlive hcovers j hj hactive p hp => ?_) fun r hnew => ?_
  · by_cases hid : r.installId = id
    · rw [hid] at hj
      cases hself.symm.trans hj
      rcases hreached ⟨i, hi, hactive⟩ k r hk hid hlive with hlock | hwithin
      · obtain ⟨r'', hr'', hdead⟩ := hr.dead k hlock r hk
        cases hk'.symm.trans hr''
        rw [hlive'] at hdead
        cases hdead
      · exact hwithin p hp
    · rw [hr.doing.installs, Table.find?_modify_ne _ _ hid] at hj
      exact hcovers j hj hactive p hp
  · rw [hnew.1, hnew.2, hself]
    refine ⟨rfl, fun j hj _ p hp => ?_⟩
    cases hself.symm.trans hj
    exact hp

end

section
variable [TokenHash]

def Request.codeHash? : Request → Option String
  | .token body => if body.grantType = "authorization_code" then body.code.map TokenHash.hashToken else none
  | _ => none

def Request.refreshHash? : Request → Option String
  | .token body => if body.grantType = "refresh_token" then body.refreshToken.map TokenHash.hashToken else none
  | _ => none

/-- The install whose consent it replaces, and the new consent. -/
def Request.renewal? [Formats] : Request → Option (Uuid × List String)
  | .reconsent _ publicId scopes => (parsePublicId .marketplaceInstall publicId).toOption.map fun id => (id, scopes)
  | _ => none

variable [Formats]

inductive Outcome (req : Request) (x : Trail Db RowKey) (s : Db) : Prop
  | created (id : Uuid) (row : InstallRow) (h : Creating id row x s)
  | renewed (id : Uuid) (consented scopes : List String) (hreq : req.renewal? = some (id, scopes))
      (hsame : ∀ p, p ∈ consented ↔ p ∈ scopes) (h : Renewing id consented x s)
  | refreshed (hash : String) (k id : Uuid) (scopes : List String) (hreq : req.refreshHash? = some hash)
      (h : Refreshing hash k id scopes x s)
  | lapsed (h : Lapsing x)

/-- What a request has done when it commits. -/
structure GrantPromise (req : Request) (x : Trail Db RowKey) (s : Db) : Prop where
  careful : Careful x.locks x.pend
  outcome : Outcome req x s
  code : ∀ hash, req.codeHash? = some hash → CodeSpent hash x s
  refresh : ∀ hash, req.refreshHash? = some hash → ∃ k id scopes, Refreshing hash k id scopes x s

variable [Sha256] [TimeFormats] {s : Db}

theorem safe_outcome (ctx : RequestCtx) (req : Request) :
    (req.handle ctx).Safe grantTerms (fun y _ u => Outcome req y u) .start s := by
  cases req with
  | createInstall user body =>
    refine (creates_createInstallEndpoint ctx user body).mono fun y _ u h => ?_
    obtain ⟨id, row, h⟩ := h
    exact .created id row h
  | connect user key scopes =>
    refine (creates_connectEndpoint ctx user key scopes).mono fun y _ u h => ?_
    obtain ⟨id, row, h⟩ := h
    exact .created id row h
  | reconsent user publicId scopes =>
    refine (safe_reconsentEndpoint ctx user publicId scopes).mono fun y _ u h => ?_
    obtain ⟨id, consented, hparse, hsame, hr⟩ := h
    refine .renewed id consented scopes ?_ hsame hr
    simp only [Request.renewal?, hparse]
    rfl
  | uninstall user publicId => exact (safe_uninstallEndpoint ctx user publicId).mono fun _ _ _ h => .lapsed h
  | disconnect user key => exact (safe_disconnectEndpoint ctx user key).mono fun _ _ _ h => .lapsed h
  | authorize user body => exact (safe_authorizeEndpoint ctx user body).mono fun _ _ _ h => .lapsed h
  | token body =>
    refine Prog.Safe.map ?_
    unfold exchange
    split_ifs with hcode hrefresh
    · refine (creates_exchangeAuthorizationCode ctx body).mono fun y _ u h => ?_
      obtain ⟨id, row, h⟩ := h
      exact .created id row h
    · cases htoken : body.refreshToken with
      | none =>
        unfold exchangeRefreshToken
        rw [htoken]
        trivial
      | some refresh =>
        refine (safe_exchangeRefreshToken ctx body htoken).mono fun y _ u h => ?_
        obtain ⟨k, id, scopes, h⟩ := h
        refine .refreshed _ k id scopes ?_ h
        simp [Request.refreshHash?, hrefresh, htoken]
    · trivial

theorem safe_code (ctx : RequestCtx) (req : Request) {hash : String} (hreq : req.codeHash? = some hash) :
    (req.handle ctx).Safe grantTerms (fun y _ u => CodeSpent hash y u) .start s := by
  cases req with
  | token body =>
    simp only [Request.codeHash?] at hreq
    split_ifs at hreq with hgrant
    obtain ⟨code, hcode, rfl⟩ := Option.map_eq_some_iff.mp hreq
    refine Prog.Safe.map ?_
    unfold exchange
    rw [if_pos hgrant]
    exact spends_exchangeAuthorizationCode ctx body hcode
  | createInstall | connect | reconsent | uninstall | disconnect | authorize => cases hreq

theorem safe_refresh (ctx : RequestCtx) (req : Request) {hash : String} (hreq : req.refreshHash? = some hash) :
    (req.handle ctx).Safe grantTerms (fun y _ u => ∃ k id scopes, Refreshing hash k id scopes y u) .start s := by
  cases req with
  | token body =>
    simp only [Request.refreshHash?] at hreq
    split_ifs at hreq with hgrant
    obtain ⟨refresh, hrefresh, rfl⟩ := Option.map_eq_some_iff.mp hreq
    refine Prog.Safe.map ?_
    have hcode : body.grantType ≠ "authorization_code" := by
      rw [hgrant]
      decide
    unfold exchange
    rw [if_neg hcode, if_pos hgrant]
    exact safe_exchangeRefreshToken ctx body hrefresh
  | createInstall | connect | reconsent | uninstall | disconnect | authorize => cases hreq

theorem safe_handle (ctx : RequestCtx) (req : Request) :
    (req.handle ctx).Safe grantTerms (fun y _ u => GrantPromise req y u) .start s := by
  have hdone := Prog.Safe.and (safe_careful ctx req s) (safe_outcome (s := s) ctx req)
  have hcode : (req.handle ctx).Safe grantTerms
      (fun y _ u => ∀ hash, req.codeHash? = some hash → CodeSpent hash y u) .start s :=
    Prog.Safe.all fun hash => Prog.Safe.imp fun hreq => safe_code ctx req hreq
  have hrefresh : (req.handle ctx).Safe grantTerms (fun y _ u => ∀ hash, req.refreshHash? = some hash →
      ∃ k id scopes, Refreshing hash k id scopes y u) .start s :=
    Prog.Safe.all fun hash => Prog.Safe.imp fun hreq => safe_refresh ctx req hreq
  exact (Prog.Safe.and hdone (Prog.Safe.and hcode hrefresh)).mono fun y _ u h => ⟨h.1.1, h.1.2, h.2.1, h.2.2⟩

end

def Db.CodeUsed (db : Db) (hash : String) : Prop :=
  ∃ k r, db.codeByHash hash = some (k, r) ∧ r.usedAt.isSome = true

def Db.TokenRevoked (db : Db) (hash : String) : Prop :=
  ∃ k r, db.tokenByHash hash = some (k, r) ∧ r.revokedAt.isSome = true

section
variable {x : Trail Db RowKey} {s t : Db} {hash : String}

theorem Grows.codeUsed (h : Grows s t) (hs : s.CodeUsed hash) : t.CodeUsed hash := by
  obtain ⟨k, r, hr, hused⟩ := hs
  obtain ⟨r', hr', hkept⟩ := h.codeByHash hr
  exact ⟨k, r', hr', hkept.used hused⟩

theorem Grows.tokenRevoked (h : Grows s t) (hs : s.TokenRevoked hash) : t.TokenRevoked hash := by
  obtain ⟨k, r, hr, hrevoked⟩ := hs
  obtain ⟨r', hr', hkept⟩ := h.tokenByHash hr
  exact ⟨k, r', hr', hkept.revoked hrevoked⟩

theorem CodeSpent.used (h : CodeSpent hash x s) (hgrows : Grows s (x.pend s)) : (x.pend s).CodeUsed hash := by
  obtain ⟨k, r, hr, r', hr', hused⟩ := h
  obtain ⟨r'', hr'', _⟩ := hgrows.codeByHash hr
  have hrow := Table.find?_eq_some.mpr (List.mem_of_find?_eq_some hr'')
  cases hrow.symm.trans hr'
  exact ⟨k, r', hr'', hused⟩

theorem Refreshing.revoked {k id : Uuid} {scopes : List String} (h : Refreshing hash k id scopes x s)
    (hgrows : Grows s (x.pend s)) : (x.pend s).TokenRevoked hash := by
  obtain ⟨r, hr⟩ := h.token
  obtain ⟨r', hr', hrevoked⟩ := h.spent s r (Table.find?_eq_some.mpr (List.mem_of_find?_eq_some hr))
  obtain ⟨r'', hr'', _⟩ := hgrows.tokenByHash hr
  have hrow := Table.find?_eq_some.mpr (List.mem_of_find?_eq_some hr'')
  cases hrow.symm.trans hr'
  exact ⟨k, r', hr'', hrevoked⟩

end

/-- How many commits of the log exchange the hash. -/
def exchanges {ι : Type} (hash? : Request → Option String) (req : ι → Request)
    (log : List (ι × Except AppError Answer)) (hash : String) : ℕ :=
  log.countP fun e => e.2.isOk && hash? (req e.1) == some hash

/-- Nothing was exchanged for the hash, or it was once and is used up. -/
def UsedOnce (n : ℕ) (used : Prop) : Prop := n = 0 ∨ n = 1 ∧ used

theorem UsedOnce.step {n : ℕ} {used used' c : Prop} [Decidable c] (h : UsedOnce n used) (hkeep : used → used')
    (hc : c → ¬used ∧ used') : UsedOnce (n + if c then 1 else 0) used' := by
  unfold UsedOnce at h ⊢
  split_ifs with hcase
  · obtain ⟨hfree, hused⟩ := hc hcase
    rcases h with hzero | ⟨_, hold⟩
    · exact .inr ⟨by omega, hused⟩
    · exact absurd hold hfree
  · rcases h with hzero | ⟨hone, hold⟩
    · exact .inl hzero
    · exact .inr ⟨hone, hkeep hold⟩

section
variable {ι : Type} (hash? : Request → Option String) (req : ι → Request)
  (log : List (ι × Except AppError Answer)) (hash : String) (i : ι)

theorem exchanges_ok (a : Answer) : exchanges hash? req (log ++ [(i, .ok a)]) hash =
    exchanges hash? req log hash + if hash? (req i) = some hash then 1 else 0 := by
  unfold exchanges
  rw [List.countP_append, List.countP_singleton]
  simp [Except.isOk, Except.toBool]

theorem exchanges_error (e : AppError) :
    exchanges hash? req (log ++ [(i, .error e)]) hash = exchanges hash? req log hash := by
  unfold exchanges
  rw [List.countP_append, List.countP_singleton]
  simp [Except.isOk, Except.toBool]

end

section
variable [TokenHash] [Formats]

/-- What a commit asks of the store it commits to: that the code or the refresh token which it exchanges is not
used up, that the consent which a refresh read is still given, and that a new consent has reached every live token
that exceeds it. -/
structure Timely (req : Request) (x : Trail Db RowKey) (s : Db) : Prop where
  code : ∀ hash, req.codeHash? = some hash → ∀ k r, s.codeByHash hash = some (k, r) → r.usedAt = none
  refresh : ∀ hash, req.refreshHash? = some hash → ∀ k r, s.tokenByHash hash = some (k, r) → r.revokedAt = none
  consent : ∀ hash, req.refreshHash? = some hash → ∀ id scopes, consentRead hash x.seen = some (id, scopes) →
    s.Covers id scopes
  renewal : ∀ id scopes, req.renewal? = some (id, scopes) →
    (∃ i, s.installs.find? id = some i ∧ i.status = .active) → ∀ k r, s.tokens.find? k = some r →
      r.installId = id → r.revokedAt = none → .token k ∈ x.locks ∨ ∀ p ∈ r.scopes, p ∈ scopes

variable [Sha256] [TimeFormats] {ι : Type} [DecidableEq ι]

def TimelyStep (ctx : ι → RequestCtx) (req : ι → Request) (c d : Config ι Db RowKey AppError Answer) : Prop :=
  ∀ i x a, c.Commits (fun i => (req i).handle (ctx i)) d i x a → Timely (req i) x c.db

/-- Live tokens are within their consent, and codes and refresh tokens were exchanged once at most. -/
structure Accounted (req : ι → Request) (log : List (ι × Except AppError Answer)) (s : Db) : Prop where
  consented : s.Consented
  codes : ∀ hash, UsedOnce (exchanges Request.codeHash? req log hash) (s.CodeUsed hash)
  refreshes : ∀ hash, UsedOnce (exchanges Request.refreshHash? req log hash) (s.TokenRevoked hash)

omit [Sha256] [TimeFormats] [DecidableEq ι] in
theorem GrantPromise.consented {req : Request} {x : Trail Db RowKey} {s : Db} (h : s.Consented)
    (hp : GrantPromise req x s) (ht : Timely req x s) : (x.pend s).Consented := by
  have hgrows := hp.careful.grows s
  cases hp.outcome with
  | created id row hc => exact hc.consented h hgrows
  | renewed id consented scopes hreq hsame hr =>
    refine hr.consented h hgrows fun hactive k r hr hid hlive => ?_
    refine (ht.renewal id scopes hreq hactive k r hr hid hlive).imp_right fun hwithin p hp => ?_
    exact (hsame p).mpr (hwithin p hp)
  | refreshed hash k id scopes hreq hr => exact hr.consented h hgrows (ht.consent hash hreq id scopes hr.read)
  | lapsed hl => exact hl.consented h hgrows

omit [Sha256] [TimeFormats] [DecidableEq ι] in
theorem GrantPromise.accounted {req : ι → Request} {log : List (ι × Except AppError Answer)} {i : ι}
    {x : Trail Db RowKey} {s : Db} (a : Answer) (h : Accounted req log s) (hp : GrantPromise (req i) x s)
    (ht : Timely (req i) x s) : Accounted req (log ++ [(i, .ok a)]) (x.pend s) := by
  have hgrows := hp.careful.grows s
  refine ⟨hp.consented h.consented ht, fun hash => ?_, fun hash => ?_⟩
  · rw [exchanges_ok]
    refine (h.codes hash).step hgrows.codeUsed fun hreq => ⟨?_, (hp.code hash hreq).used hgrows⟩
    rintro ⟨k, r, hr, hused⟩
    simp [ht.code hash hreq k r hr] at hused
  · rw [exchanges_ok]
    refine (h.refreshes hash).step hgrows.tokenRevoked fun hreq => ⟨?_, ?_⟩
    · rintro ⟨k, r, hr, hrevoked⟩
      simp [ht.refresh hash hreq k r hr] at hrevoked
    · obtain ⟨k, id, scopes, hr⟩ := hp.refresh hash hreq
      exact hr.revoked hgrows

omit [Formats] [Sha256] [TimeFormats] [DecidableEq ι] in
theorem authorizePermission_run {now : Timestamp} {token permission : String}
    {answer : AuthorizePermissionResponse} {s t : Db}
    (h : (authorizePermission now token permission).run s = .ok (answer, t)) :
    ∃ k r i, s.tokens.find? k = some r ∧ r.revokedAt = none ∧ s.installs.find? r.installId = some i ∧
      i.status = .active ∧ i.publicId = answer.installId ∧ permission ∈ r.scopes := by
  simp only [authorizePermission, resolveToken, bind_assoc, pure_bind, Prog.run_require_bind_ok, Prog.run_query_bind,
    Prog.run_okOr_bind_ok] at h
  obtain ⟨_, ⟨k, r⟩, hr, _, hlive, _, ⟨orgId, i⟩, hi, hactive, hscope, hanswer⟩ := h
  obtain ⟨i', hi', hpair⟩ := Option.map_eq_some_iff.mp hi
  cases hpair
  cases hanswer
  exact ⟨k, r, i, Table.find?_eq_some.mpr (List.mem_of_find?_eq_some hr), hlive, hi', hactive, rfl, hscope⟩

/-- In every run with timely commits, what an access token is allowed is in the current consent of an active
install, and each code and each refresh token is exchanged at most once. -/
theorem app_tokens_follow_consent {ctx : ι → RequestCtx} {req : ι → Request} {db : Db}
    {c : Config ι Db RowKey AppError Answer}
    (h : ReachableWhere (TimelyStep ctx req) (fun i => (req i).handle (ctx i)) db c) (hdb : db.Consented) :
    (∀ now token permission answer t, (authorizePermission now token permission).run c.db = .ok (answer, t) →
      ∃ id i, c.db.installs.find? id = some i ∧ i.publicId = answer.installId ∧ i.status = .active ∧
        permission ∈ i.consentedScopes) ∧
    (∀ hash, exchanges Request.codeHash? req c.log hash ≤ 1) ∧
    ∀ hash, exchanges Request.refreshHash? req c.log hash ≤ 1 := by
  have hsafe : ∀ c, ReachableWhere (TimelyStep ctx req) (fun i => (req i).handle (ctx i)) db c →
      c.Safe (fun _ => grantTerms) (fun i x _ s => GrantPromise (req i) x s) fun i => (req i).handle (ctx i) := by
    intro c hc
    refine hc.safe (fun i => safe_handle (ctx i) (req i)) (fun _ _ _ _ _ _ _ => trivial) ?_
    exact fun i j x a ls s _ hp hdisjoint => hp.careful.relied hdisjoint s
  have hdone : Accounted req c.log c.db := by
    refine h.commits_invariant hsafe (P := fun i x _ s => Timely (req i) x s) ?_ ?_ ?_ ?_
    · exact fun c d i x a hstep hcommit => hstep i x a hcommit
    · exact ⟨hdb, fun _ => .inl rfl, fun _ => .inl rfl⟩
    · exact fun i x a log s hlog hp ht => hp.accounted a hlog ht
    · intro i e log s hlog
      refine ⟨hlog.consented, fun hash => ?_, fun hash => ?_⟩
      · rw [exchanges_error]
        exact hlog.codes hash
      · rw [exchanges_error]
        exact hlog.refreshes hash
  have honce : ∀ {n used}, UsedOnce n used → n ≤ 1 := by
    intro n used hn
    unfold UsedOnce at hn
    omega
  refine ⟨fun now token permission answer t hrun => ?_, fun hash => honce (hdone.codes hash),
    fun hash => honce (hdone.refreshes hash)⟩
  obtain ⟨k, r, i, hr, hlive, hi, hactive, hpublic, hscope⟩ := authorizePermission_run hrun
  exact ⟨_, i, hi, hpublic, hactive, (hdone.consented k r hr hlive).2 i hi hactive permission hscope⟩

end

def ownerMembership : Workspace.MembershipRow :=
  ⟨2, "mem_2", .owner, none, none, none, 1, .active, none, none⟩

section
variable [TokenHash]

def refreshOnce : Request := .token ⟨"refresh_token", "app", "secret", none, none, none, some "mrt_1"⟩

def redeemOnce : Request :=
  .token ⟨"authorization_code", "app", "secret", some "mac_1", some sampleVerifier, none, none⟩

def Db.oneCode : Db where
  orgId := 7
  workspace := { Workspace.Store.empty with memberships := Table.empty.insert 1 ownerMembership }
  listings := Table.empty.insert 10
    ⟨9, "app_10", "app", "App", .thirdParty, none, ["sales.customer.read", "sales.deal.read"], [], .published⟩
  clients := Table.empty.insert 11 ⟨10, "app", TokenHash.hashToken "secret", none⟩
  installs := .empty
  tokens := .empty
  codes := Table.empty.insert 30
    { listingId := 10
      codeHash := TokenHash.hashToken "mac_1"
      codeChallenge := "E9Melhoa2OwvFrEMTJguCHaoeK1t8URWbuGJSstw-cM"
      codeChallengeMethod := "S256"
      redirectUri := "https://app"
      consentedScopes := ["sales.customer.read"]
      expiresAt := 300
      createdBy := 1 }
  outbox := []

def Db.oneInstall : Db :=
  { Db.oneCode with
    installs := Table.empty.insert 20
      { publicId := "ins_20"
        listingId := 10
        listingPublicId := "app_10"
        listingSlug := "app"
        listingName := "App"
        listingKind := .thirdParty
        connectorKey := none
        consentedScopes := ["sales.customer.read", "sales.deal.read"]
        installedBy := 1
        installedAt := 0 }
    tokens := Table.empty.insert 22
      { installId := 20
        publicId := "atk_22"
        tokenKind := .refresh
        tokenHash := TokenHash.hashToken "mrt_1"
        tokenPrefix := "mrt_1"
        scopes := ["sales.customer.read", "sales.deal.read"]
        expiresAt := some 100000 } }

end

def drawn (n : ℕ) : RequestCtx := ⟨1, fun k => 100 * n + k, fun k => toString (10 * n + k)⟩

def narrowConsent [Formats] : Request :=
  .reconsent 1 (PublicId.mk .marketplaceInstall 20).asStr ["sales.customer.read"]

def removeSecond [Formats] : Request := .uninstall 1 (PublicId.mk .marketplaceInstall 200).asStr

theorem consented_oneInstall [TokenHash] : Db.oneInstall.Consented := by
  intro k r hr _
  rcases Table.find?_insert_some hr with hnone | ⟨_, rfl⟩
  · cases hnone
  · refine ⟨rfl, fun i hi _ p hp => ?_⟩
    rcases Table.find?_insert_some hi with hnone | ⟨_, rfl⟩
    · cases hnone
    · exact hp

theorem consented_oneCode [TokenHash] : Db.oneCode.Consented := by
  intro k r hr
  cases hr

/-- A refresh that read the consent before it was narrowed issues tokens for all of it afterwards. Two exchanges
read one code as unused, and the install of the first is removed before the second makes its own. Two exchanges
read one refresh token as live. -/
theorem app_tokens_exceed_consent :
    letI := canonicalFormats
    letI := canonicalTokenHash
    letI := canonicalSha256
    letI := canonicalTimeFormats
    Db.oneInstall.Consented ∧ Db.oneCode.Consented ∧
    (∃ c, Reachable (fun i => (sideBySide refreshOnce narrowConsent i).handle (drawn (sideBySide 1 2 i)))
        Db.oneInstall c ∧
      ∃ answer t, (authorizePermission 2 "mat_10" "sales.deal.read").run c.db = .ok (answer, t) ∧
        ¬∃ id i, c.db.installs.find? id = some i ∧ i.publicId = answer.installId ∧ i.status = .active ∧
          "sales.deal.read" ∈ i.consentedScopes) ∧
    (∃ c, Reachable (fun i : Fin 3 => ([redeemOnce, redeemOnce, removeSecond].get i).handle (drawn (i + 1)))
        Db.oneCode c ∧
      ¬exchanges Request.codeHash? [redeemOnce, redeemOnce, removeSecond].get c.log
        (TokenHash.hashToken "mac_1") ≤ 1) ∧
    ∃ c, Reachable (fun i => refreshOnce.handle (drawn (sideBySide 1 2 i))) Db.oneInstall c ∧
      ¬exchanges Request.refreshHash? (fun _ => refreshOnce) c.log (TokenHash.hashToken "mrt_1") ≤ 1 := by
  let := canonicalFormats
  let := canonicalTokenHash
  let := canonicalSha256
  let := canonicalTimeFormats
  refine ⟨consented_oneInstall, consented_oneCode, ?_, ?_, ?_⟩
  · obtain ⟨c, hc, hP⟩ := Reachable.of_play
      (fun i => (sideBySide refreshOnce narrowConsent i).handle (drawn (sideBySide 1 2 i))) Db.oneInstall
      (List.replicate 3 (.exec left) ++ Move.through right 11 ++ Move.through left 5)
      (fun c => ((authorizePermission 2 "mat_10" "sales.deal.read").run c.db).toOption.any fun r =>
        c.db.installs.rows.all fun i => i.2.publicId ≠ r.1.installId ∨ "sales.deal.read" ∉ i.2.consentedScopes)
      (by decide +kernel)
    obtain ⟨⟨answer, t⟩, hrun, hall⟩ := (Option.any_eq_true _ _).mp hP
    refine ⟨c, hc, answer, t, ?_, ?_⟩
    · cases hr : (authorizePermission 2 "mat_10" "sales.deal.read").run c.db with
      | error e => simp [hr, Except.toOption] at hrun
      | ok r => simpa [hr, Except.toOption] using hrun
    · rintro ⟨id, i, hi, hpublic, _, hscope⟩
      have hrow := List.all_eq_true.mp hall _ (Table.find?_eq_some.mp hi)
      rcases of_decide_eq_true hrow with hne | hnot
      · exact hne hpublic
      · exact hnot hscope
  · obtain ⟨c, hc, hP⟩ := Reachable.of_play
      (fun i : Fin 3 => ([redeemOnce, redeemOnce, removeSecond].get i).handle (drawn (i + 1))) Db.oneCode
      (List.replicate 3 (.exec 0) ++ Move.through 1 10 ++ Move.through 2 8 ++ Move.through 0 7)
      (fun c => exchanges Request.codeHash? [redeemOnce, redeemOnce, removeSecond].get c.log
        (TokenHash.hashToken "mac_1") == 2) (by decide +kernel)
    rw [beq_iff_eq] at hP
    exact ⟨c, hc, by omega⟩
  · obtain ⟨c, hc, hP⟩ := Reachable.of_play
      (fun i => refreshOnce.handle (drawn (sideBySide 1 2 i))) Db.oneInstall
      (List.replicate 3 (.exec left) ++ Move.through right 8 ++ Move.through left 5)
      (fun c => exchanges Request.refreshHash? (fun _ => refreshOnce) c.log (TokenHash.hashToken "mrt_1") == 2)
      (by decide +kernel)
    rw [beq_iff_eq] at hP
    exact ⟨c, hc, by omega⟩

/-- Two exchanges of one code side by side, of which the second reads the code as used. -/
theorem app_tokens_follow_consent_side_by_side :
    letI := canonicalFormats
    letI := canonicalTokenHash
    letI := canonicalSha256
    letI := canonicalTimeFormats
    let ctx : Fin 2 → RequestCtx := fun i => drawn (sideBySide 1 2 i)
    ∃ c, ReachableWhere (TimelyStep ctx fun _ => redeemOnce) (fun i => redeemOnce.handle (ctx i)) Db.oneCode c ∧
      c.log.length = 2 ∧ exchanges Request.codeHash? (fun _ => redeemOnce) c.log (TokenHash.hashToken "mac_1") = 1 ∧
      ∃ answer t, (authorizePermission 2 "mat_10" "sales.customer.read").run c.db = .ok (answer, t) ∧
        ∃ id i, c.db.installs.find? id = some i ∧ i.publicId = answer.installId ∧ i.status = .active ∧
          "sales.customer.read" ∈ i.consentedScopes := by
  let := canonicalFormats
  let := canonicalTokenHash
  let := canonicalSha256
  let := canonicalTimeFormats
  intro ctx
  let unused (c : Config (Fin 2) Db RowKey AppError Answer) : Bool :=
    [left, right].all fun i => !c.finishing i || c.db.codes.rows.all fun r => r.2.usedAt.isNone
  have htimely : ∀ c d, unused c = true → TimelyStep ctx (fun _ => redeemOnce) c d := by
    intro c d hc i x a hcommit
    have hi := List.all_eq_true.mp hc i (mem_left_right i)
    rw [hcommit.finishing, Bool.not_true, Bool.false_or] at hi
    refine ⟨fun hash _ k r hr => ?_, fun hash hreq => ?_, fun hash hreq => ?_, fun id scopes hreq => ?_⟩
    · have hrow := List.all_eq_true.mp hi _ (List.mem_of_find?_eq_some hr)
      simpa using hrow
    · simp [Request.refreshHash?, redeemOnce] at hreq
    · simp [Request.refreshHash?, redeemOnce] at hreq
    · cases hreq
  obtain ⟨c, hc, hQ⟩ := ReachableWhere.of_play (fun i => redeemOnce.handle (ctx i)) Db.oneCode unused
    (fun c => c.log.length == 2 &&
      exchanges Request.codeHash? (fun _ => redeemOnce) c.log (TokenHash.hashToken "mac_1") == 1 &&
        ((authorizePermission 2 "mat_10" "sales.customer.read").run c.db).isOk) htimely
    (.exec right :: Move.through left 10 ++ Move.through right 1) (by decide +kernel)
  simp only [Bool.and_eq_true, beq_iff_eq] at hQ
  obtain ⟨⟨hlog, hone⟩, hok⟩ := hQ
  refine ⟨c, hc, hlog, hone, ?_⟩
  cases hr : (authorizePermission 2 "mat_10" "sales.customer.read").run c.db with
  | error e => simp [hr, Except.isOk, Except.toBool] at hok
  | ok r => exact ⟨r.1, r.2, rfl, (app_tokens_follow_consent hc consented_oneCode).1 2 _ _ r.1 r.2 hr⟩

end Noxara.Marketplace
