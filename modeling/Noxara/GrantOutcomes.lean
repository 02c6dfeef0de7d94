import Noxara.MarketplaceEffects

/-! What each request to the marketplace has done when it commits: which install and which tokens it adds, and
which token or code it has spent. -/
namespace Noxara.Marketplace

open Authz Transaction
open Finance (Uuid Timestamp Formats)
open Workspace (TokenHash)

/-- Rows only grow, and the others leave a new install and a token to whom holds its lock. -/
structure Relied (ls : List RowKey) (s t : Db) : Prop where
  grows : Grows s t
  install : ∀ id, .install id ∈ ls → s.installs.find? id = none → t.installs.find? id = none
  token : ∀ k, .token k ∈ ls → t.tokens.find? k = s.tokens.find? k

def grantTerms : Terms Db RowKey where
  rely := Relied
  when _ _ _ := True
  refl _ s := ⟨.refl s, fun _ _ h => h, fun _ _ => rfl⟩
  trans h h' := ⟨h.grows.trans h'.grows, fun id hid hnone => h'.install id hid (h.install id hid hnone),
    fun k hk => (h'.token k hk).trans (h.token k hk)⟩
  anti hls h := ⟨h.grows, fun id hid => h.install id (hls _ hid), fun k hk => h.token k (hls _ hk)⟩

theorem Careful.relied {ls ks : List RowKey} {f : Db → Db} (h : Careful ls f) (hks : ∀ k ∈ ls, k ∉ ks)
    (s : Db) :
    Relied ks s (f s) where
  grows := h.grows s
  install id hid hnone := h.install s id (fun hls => hks _ hls hid) hnone
  token k hk := h.token s k fun hls => hks _ hls hk

theorem safe_careful [TokenHash] [Sha256] [Formats] [TimeFormats] (ctx : RequestCtx) (req : Request) (s : Db) :
    (req.handle ctx).Safe grantTerms (fun y _ _ => Careful y.locks y.pend) .start s := by
  have hsteady : Prog.Steady grantTerms Careful fun y _ => Careful y.locks y.pend :=
    ⟨fun _ h => h, fun hw h => hw.comp h⟩
  exact hsteady.safe (careful_handle ctx req) (Careful.id _)

/-- The tokens of `t` are those of `s`, or new ones that meet `P`. -/
def TokensFrom (P : AppTokenRow → Prop) (s t : Db) : Prop :=
  ∀ k r', t.tokens.find? k = some r' → (∃ r, s.tokens.find? k = some r ∧ TokenKept r r') ∨ P r'

def IssuedFor (id : Uuid) (scopes : List String) (r : AppTokenRow) : Prop := r.installId = id ∧ r.scopes = scopes

def Issuing (P : AppTokenRow → Prop) (_ : List RowKey) (f : Db → Db) : Prop :=
  ∀ t, (f t).installs = t.installs ∧ TokensFrom P t (f t)

/-- So far the transaction makes `g` of the installs, and the tokens it adds meet `P`. -/
structure Doing (g : Table Uuid InstallRow → Table Uuid InstallRow) (P : AppTokenRow → Prop)
    (x : Trail Db RowKey) : Prop where
  installs : ∀ t, (x.pend t).installs = g t.installs
  tokens : ∀ t, TokensFrom P t (x.pend t)

/-- A property that tokens keep. -/
def Lasting (P : AppTokenRow → Prop) : Prop := ∀ r r', TokenKept r r' → P r → P r'

section
variable {P : AppTokenRow → Prop} {k : Uuid} {scopes : List String} {x : Trail Db RowKey} {s t u : Db}
  {g : Table Uuid InstallRow → Table Uuid InstallRow}

theorem TokensFrom.refl (s : Db) : TokensFrom P s s := fun _ r hr => .inl ⟨r, hr, .refl r⟩

theorem TokensFrom.trans (hP : Lasting P) (h : TokensFrom P s t) (h' : TokensFrom P t u) : TokensFrom P s u := by
  intro k r'' hr''
  rcases h' k r'' hr'' with ⟨r', hr', hkept'⟩ | hnew
  · rcases h k r' hr' with ⟨r, hr, hkept⟩ | hnew
    · exact .inl ⟨r, hr, hkept.trans hkept'⟩
    · exact .inr (hP _ _ hkept' hnew)
  · exact .inr hnew

theorem lasting_issuedFor (id : Uuid) (scopes : List String) : Lasting (IssuedFor id scopes) :=
  fun _ _ hkept h => ⟨hkept.installId.trans h.1, hkept.scopes.trans h.2⟩

theorem lasting_none : Lasting fun _ => False := fun _ _ _ h => h

theorem issuing_id (ls : List RowKey) : Issuing P ls id := fun t => ⟨rfl, .refl t⟩

theorem issuing_of_keeps {ls : List RowKey} {f : Db → Db}
    (h : ∀ t, (f t).installs = t.installs ∧ (f t).tokens = t.tokens) : Issuing P ls f := by
  intro t
  refine ⟨(h t).1, fun k r' hr' => .inl ⟨r', ?_, .refl r'⟩⟩
  rwa [(h t).2] at hr'

theorem issuing_insertToken (ls : List RowKey) {row : AppTokenRow} (hrow : P row) :
    Issuing P ls fun db => { db with tokens := db.tokens.insert k row } := by
  intro t
  refine ⟨rfl, fun j r' hr' => ?_⟩
  rcases Table.find?_insert_some hr' with hold | ⟨_, rfl⟩
  · exact .inl ⟨r', hold, .refl r'⟩
  · exact .inr hrow

theorem issuing_revokeToken (ls : List RowKey) (now : Timestamp) (id : Uuid) :
    Issuing P ls (Db.revokeToken now id) := by
  intro t
  refine ⟨rfl, fun k r' hr' => .inl ?_⟩
  change (t.tokens.modify id (·.revoke now)).find? k = some r' at hr'
  by_cases hk : k = id
  · subst hk
    rw [Table.find?_modify_self] at hr'
    obtain ⟨r, hr, rfl⟩ := Option.map_eq_some_iff.mp hr'
    exact ⟨r, hr, .revoke now r⟩
  · rw [Table.find?_modify_ne _ _ hk] at hr'
    exact ⟨r', hr', .refl r'⟩

theorem Doing.start (hx : x.pend = id) : Doing (fun installs => installs) P x := by
  constructor
  · intro t
    rw [hx]
    rfl
  · intro t
    rw [hx]
    exact .refl t

theorem Doing.push (hP : Lasting P) (h : Doing g P x) {l : Db → List RowKey} {w : Db → Db → Db}
    (hw : Issuing P (l (x.pend s)) (w (x.pend s))) : Doing g P (x.push l w s) where
  installs t := (hw (x.pend t)).1.trans (h.installs t)
  tokens t := (h.tokens t).trans hP (hw (x.pend t)).2

theorem Doing.install (h : Doing (fun installs => installs) P x) {l : Db → List RowKey}
    {f : Table Uuid InstallRow → Table Uuid InstallRow} :
    Doing f P (x.push l (fun _ db => { db with installs := f db.installs }) s) where
  installs t := congrArg f (h.installs t)
  tokens t := h.tokens t

theorem issuing_emitEvent (event : Event) : (emitEvent event).Covered (Issuing P) :=
  Prog.covered_execute issuing_id fun _ _ => issuing_of_keeps fun _ => ⟨rfl, rfl⟩

theorem issuing_fetchInstall (id : Uuid) : (fetchInstall id).Covered (Issuing P) :=
  covered_of_idle (idle_fetchInstall id) issuing_id

theorem issuing_revokeTokens (now : Timestamp) (ids : List Uuid) : (revokeTokens now ids).Covered (Issuing P) := by
  induction ids with
  | nil => trivial
  | cons id ids ih =>
    refine .bind (Prog.covered_executeReturning issuing_id fun v _ _ => ?_) fun _ => .bind ih fun _ => trivial
    cases hlive : v.isLive id with
    | true => simpa [hlive] using issuing_revokeToken [.token id] now id
    | false =>
      simp only [Bool.false_eq_true, if_false]
      exact issuing_id _

theorem issuing_revokeInstallTokens (now : Timestamp) (id : Uuid) :
    (revokeInstallTokens now id).Covered (Issuing P) :=
  .bind (Prog.covered_query issuing_id _) fun ids => issuing_revokeTokens now ids

theorem issuing_issueTokens [TokenHash] [Formats] (ctx : RequestCtx) (id : Uuid) (scopes : List String) :
    (issueTokens ctx id scopes).Covered (Issuing (IssuedFor id scopes)) :=
  .bind (Prog.covered_execute issuing_id fun _ _ => issuing_insertToken _ ⟨rfl, rfl⟩) fun _ =>
    .bind (Prog.covered_execute issuing_id fun _ _ => issuing_insertToken _ ⟨rfl, rfl⟩) fun _ => trivial

end

/-- The install and the consent that an exchange read with its third statement, for the token that it had found
with its second. -/
def consentRead (hash : String) (seen : List Db) : Option (Uuid × List String) :=
  match seen.reverse with
  | _ :: v :: w :: _ =>
    (v.tokenByHash hash).bind fun token =>
      (w.installs.find? token.2.installId).map fun install => (token.2.installId, install.consentedScopes)
  | _ => none

/-- The install is drawn new, and the tokens added carry its consent. -/
structure Creating (id : Uuid) (row : InstallRow) (x : Trail Db RowKey) (s : Db) : Prop where
  lock : .install id ∈ x.locks
  new : s.installs.find? id = none
  doing : Doing (·.insert id row) (IssuedFor id row.consentedScopes) x

theorem steady_creating (id : Uuid) (row : InstallRow) :
    Prog.Steady grantTerms (Issuing (IssuedFor id row.consentedScopes)) (Creating id row) where
  rely h hc := ⟨hc.lock, h.install id hc.lock hc.new, hc.doing⟩
  push hw hc := ⟨List.mem_append_right _ hc.lock, hc.new, hc.doing.push (lasting_issuedFor _ _) hw⟩

section
variable [TokenHash] [Formats] {x : Trail Db RowKey} {s : Db}

theorem safe_createInstall (ctx : RequestCtx) (user listingId : Uuid) (listing : ListingRow) (consented : List String)
    (hx : x.pend = id) : (createInstall ctx user listingId listing consented).Safe grantTerms
      (fun y _ u => Creating (ctx.fresh 0) (installRow ctx user listingId listing consented) y u) x s := by
  refine Prog.Safe.ofExcept_bind fun _ _ => Prog.Safe.require_bind fun _ => ?_
  refine Prog.Safe.execute_bind fun u _ _ hcheck => ?_
  rw [hx, id_eq] at hcheck
  have hnew : u.installs.find? (ctx.fresh 0) = none := by
    cases hfind : u.installs.find? (ctx.fresh 0) with
    | none => rfl
    | some r => simp [hfind] at hcheck
  refine (steady_creating _ _).safe ?_
    ⟨List.mem_append_left _ (List.mem_cons_self ..), hnew, (Doing.start hx).install⟩
  exact .bind (issuing_issueTokens ctx _ consented) fun _ => .bind (issuing_fetchInstall _) fun _ =>
    .bind (issuing_emitEvent _) fun _ => .bind (issuing_emitEvent _) fun _ => trivial

omit [Formats] [TokenHash] in
theorem issuing_markUsed {P : AppTokenRow → Prop} (now : Timestamp) (k installId : Uuid) :
    (markUsed now k installId).Covered (Issuing P) :=
  Prog.covered_execute issuing_id fun _ _ => issuing_of_keeps fun _ => ⟨rfl, rfl⟩

theorem creates_exchangeAuthorizationCode [Sha256] (ctx : RequestCtx) (body : OauthTokenRequest) :
    (exchangeAuthorizationCode ctx body).Safe grantTerms (fun y _ u => ∃ id row, Creating id row y u) .start s := by
  refine Prog.Safe.okOr_bind fun code _ => ?_
  refine Prog.Safe.bind ((safe_of_idle (idle_authenticateClient _ _) _ rfl).mono fun y client u hy => ?_)
  refine Prog.Safe.query_bind fun v _ _ => Prog.Safe.okOr_bind fun found _ => ?_
  have hlook : (y.look v).pend = id := hy
  refine Prog.Safe.bind ((safe_of_idle (idle_checkCode _ _ _ _) _ hlook).mono fun z _ w hz => ?_)
  refine Prog.Safe.bind ((safe_of_idle (idle_fetchPublished _) _ hz).mono fun z' listing w' hz' => ?_)
  refine Prog.Safe.bind ((safe_createInstall ctx _ _ listing _ hz').mono fun a created b hcreating => ?_)
  refine Prog.Safe.bind (((steady_creating _ _).safe (issuing_markUsed ctx.now found.1 _) hcreating).mono ?_)
  exact fun y' _ u' hy' v' hv' => ⟨_, _, (steady_creating _ _).rely hv' hy'⟩

/-- The lookup finds the code `k`, and the transaction was careful so far. -/
structure Holding (hash : String) (k : Uuid) (x : Trail Db RowKey) (s : Db) : Prop where
  found : ∃ r, s.codeByHash hash = some (k, r)
  careful : Careful x.locks x.pend

/-- The lookup finds a code that the transaction has used. -/
def CodeSpent (hash : String) (x : Trail Db RowKey) (s : Db) : Prop :=
  ∃ k r, s.codeByHash hash = some (k, r) ∧ ∃ r', (x.pend s).codes.find? k = some r' ∧ r'.usedAt.isSome = true

omit [Formats] [TokenHash] in
theorem steady_holding (hash : String) (k : Uuid) : Prog.Steady grantTerms Careful (Holding hash k) where
  rely h hh := by
    obtain ⟨r, hr⟩ := hh.found
    obtain ⟨r', hr', _⟩ := h.grows.codeByHash hr
    exact ⟨⟨r', hr'⟩, hh.careful⟩
  push hw hh := ⟨hh.found, hw.comp hh.careful⟩

omit [Formats] [TokenHash] in
theorem spends_markUsed {α : Type} {hash : String} {k : Uuid} (now : Timestamp) (installId : Uuid) (a : α)
    (h : Holding hash k x s) : (markUsed now k installId >>= fun _ => pure a : Tx α).Safe grantTerms
      (fun y _ u => CodeSpent hash y u) x s := by
  refine Prog.Safe.execute_bind fun u hu _ _ => Prog.Safe.pure fun v hv => ?_
  have hu' := (steady_holding hash k).rely hu h
  have hlocks : Relied x.locks u v := grantTerms.anti (fun _ hk => List.mem_append_right _ hk) hv
  obtain ⟨⟨r, hr⟩, hcareful⟩ := (steady_holding hash k).rely hlocks hu'
  -- what the transaction did before has left the code in place
  obtain ⟨r', hr', _⟩ := (hcareful.grows v).codes.find? (Table.find?_eq_some.mpr (List.mem_of_find?_eq_some hr))
  refine ⟨k, r, hr, r'.use now installId, ?_, rfl⟩
  change ((x.pend v).codes.modify k _).find? k = _
  rw [Table.find?_modify_self, hr']
  rfl

theorem spends_exchangeAuthorizationCode [Sha256] (ctx : RequestCtx) (body : OauthTokenRequest) {code : String}
    (hcode : body.code = some code) : (exchangeAuthorizationCode ctx body).Safe grantTerms
      (fun y _ u => CodeSpent (TokenHash.hashToken code) y u) .start s := by
  refine Prog.Safe.okOr_bind fun code' hcode' => ?_
  cases hcode.symm.trans hcode'
  refine Prog.Safe.bind ((safe_of_idle (idle_authenticateClient _ _) _ rfl).mono fun y client u hy => ?_)
  refine Prog.Safe.query_bind fun v _ _ => Prog.Safe.okOr_bind fun found hfound => ?_
  rw [hy, id_eq] at hfound
  have hsteady := steady_holding (TokenHash.hashToken code) found.1
  have hholding : Holding (TokenHash.hashToken code) found.1 (y.look v) v := by
    refine ⟨⟨found.2, hfound⟩, ?_⟩
    change Careful y.locks y.pend
    rw [hy]
    exact Careful.id _
  refine Prog.Safe.bind ((hsteady.safe (careful_of_idle (idle_checkCode _ _ _ _)) hholding).mono fun _ _ _ h => ?_)
  refine Prog.Safe.bind ((hsteady.safe (careful_of_idle (idle_fetchPublished _)) h).mono fun _ _ _ h => ?_)
  refine Prog.Safe.bind ((hsteady.safe (careful_createInstall _ _ _ _ _) h).mono fun _ created _ h => ?_)
  exact spends_markUsed ctx.now created.1 created.2 h

omit [Formats] [TokenHash] in
theorem consentRead_cons {hash : String} {seen : List Db} {read : Uuid × List String}
    (h : consentRead hash seen = some read) (v : Db) : consentRead hash (v :: seen) = some read := by
  unfold consentRead at h ⊢
  rw [List.reverse_cons]
  split at h
  · next hseen =>
    rw [hseen]
    exact h
  · cases h

/-- The transaction has revoked the refresh token `k` that the lookup finds, and carries over the consent that it
read of the install. -/
structure Refreshing (hash : String) (k id : Uuid) (scopes : List String) (x : Trail Db RowKey) (s : Db) :
    Prop where
  read : consentRead hash x.seen = some (id, scopes)
  found : (s.installs.find? id).isSome = true
  token : ∃ r, s.tokenByHash hash = some (k, r)
  spent : ∀ t r, t.tokens.find? k = some r →
    ∃ r', (x.pend t).tokens.find? k = some r' ∧ r'.revokedAt.isSome = true
  doing : Doing (fun installs => installs) (IssuedFor id scopes) x

omit [Formats] [TokenHash] in
theorem steady_refreshing (hash : String) (k id : Uuid) (scopes : List String) :
    Prog.Steady grantTerms (fun ls f => Careful ls f ∧ Issuing (IssuedFor id scopes) ls f)
      (Refreshing hash k id scopes) where
  rely h hr := by
    obtain ⟨r, htoken⟩ := hr.token
    obtain ⟨r', htoken', _⟩ := h.grows.tokenByHash htoken
    exact ⟨hr.read, h.grows.installs _ hr.found, ⟨r', htoken'⟩, hr.spent, hr.doing⟩
  push {x l w s} hw hr := by
    refine ⟨consentRead_cons hr.read _, hr.found, hr.token,
      fun t r ht => ?_, hr.doing.push (lasting_issuedFor _ _) hw.2⟩
    obtain ⟨r', hr', hrevoked⟩ := hr.spent t r ht
    obtain ⟨r'', hr'', hkept⟩ := (hw.1.grows (x.pend t)).tokens.find? hr'
    exact ⟨r'', hr'', hkept.revoked hrevoked⟩

theorem safe_exchangeRefreshToken (ctx : RequestCtx) (body : OauthTokenRequest) {refresh : String}
    (hrefresh : body.refreshToken = some refresh) : (exchangeRefreshToken ctx body).Safe grantTerms
      (fun y _ u => ∃ k id scopes, Refreshing (TokenHash.hashToken refresh) k id scopes y u) .start s := by
  unfold exchangeRefreshToken
  simp only [hrefresh, authenticateClient, resolveToken, bind_assoc, pure_bind]
  refine Prog.Safe.okOr_bind fun refresh' hrefresh' => ?_
  cases hrefresh'
  refine Prog.Safe.query_bind fun u _ _ => Prog.Safe.okOr_bind fun client _ => ?_
  refine Prog.Safe.require_bind fun _ => Prog.Safe.require_bind fun _ => ?_
  refine Prog.Safe.query_bind fun v _ _ => Prog.Safe.okOr_bind fun token htoken => ?_
  refine Prog.Safe.require_bind fun _ => Prog.Safe.require_bind fun _ => Prog.Safe.require_bind fun _ => ?_
  refine Prog.Safe.query_bind fun w hw _ => Prog.Safe.okOr_bind fun install hinstall => ?_
  refine Prog.Safe.require_bind fun _ => Prog.Safe.require_bind fun _ => ?_
  obtain ⟨i, hi, rfl⟩ := Option.map_eq_some_iff.mp hinstall
  refine Prog.Safe.execute_bind fun a ha _ _ => ?_
  have hrefreshing : Refreshing (TokenHash.hashToken refresh) token.1 token.2.installId i.consentedScopes
      ((((Trail.start.look u).look v).look w).push (fun _ => [.token token.1])
        (fun _ db => db.revokeToken ctx.now token.1) a) a := by
    have hgrows : Grows v a := hw.grows.trans ha.grows
    obtain ⟨r, hr, _⟩ := hgrows.tokenByHash (r := token.2) htoken
    have hread : (v.tokenByHash (TokenHash.hashToken refresh)) = some token := htoken
    have hinstalled : w.installs.find? token.2.installId = some i := hi
    constructor
    · change consentRead _ [a, w, v, u] = _
      simp [consentRead, hread, hinstalled]
    · exact ha.grows.installs _ (by rw [hinstalled]; rfl)
    · exact ⟨r, hr⟩
    · intro t r ht
      refine ⟨r.revoke ctx.now, ?_, rfl⟩
      change (t.tokens.modify token.1 _).find? token.1 = _
      rw [Table.find?_modify_self, ht]
      rfl
    · exact (Doing.start rfl).push (lasting_issuedFor _ _) (issuing_revokeToken _ _ _)
  refine ((steady_refreshing _ _ _ _).safe ?_ hrefreshing).mono fun _ _ _ h => ⟨_, _, _, h⟩
  exact .and (.bind (careful_issueTokens _ _ _) fun _ => .bind (careful_of_idle (idle_fetchInstall _)) fun _ =>
      .bind (careful_emitEvent _) fun _ => trivial)
    (.bind (issuing_issueTokens _ _ _) fun _ => .bind (issuing_fetchInstall _) fun _ =>
      .bind (issuing_emitEvent _) fun _ => trivial)

end

/-- The transaction has replaced the consent of the install, and every token that it locks is revoked or new. -/
structure Renewing (id : Uuid) (consented : List String) (x : Trail Db RowKey) (s : Db) : Prop where
  found : (s.installs.find? id).isSome = true
  doing : Doing (·.modify id (·.setConsent consented)) (IssuedFor id consented) x
  confined : ∀ k, Prog.Confined (fun db : Db => db.tokens.find? k) x.pend
  dead : ∀ k, .token k ∈ x.locks → ∀ r, s.tokens.find? k = some r →
    ∃ r', (x.pend s).tokens.find? k = some r' ∧ r'.revokedAt.isSome = true

section
variable {installId : Uuid} {consented : List String} {x : Trail Db RowKey} {s u : Db}

theorem Renewing.rely (h : Renewing installId consented x s) (hs : Relied x.locks s u) :
    Renewing installId consented x u := by
  refine ⟨hs.grows.installs _ h.found, h.doing, h.confined, fun k hk r hr => ?_⟩
  obtain ⟨g, hg⟩ := h.confined k
  rw [hs.token k hk] at hr
  have hsame : (x.pend u).tokens.find? k = (x.pend s).tokens.find? k := by
    have htoken := congrArg g (hs.token k hk)
    exact (hg u).trans (htoken.trans (hg s).symm)
  rw [hsame]
  exact h.dead k hk r hr

/-- A statement that neither locks nor writes tokens or installs. -/
theorem Renewing.aside (h : Renewing installId consented x s) {w : Db → Db → Db}
    (hw : ∀ v t, (w v t).installs = t.installs ∧ (w v t).tokens = t.tokens) :
    Renewing installId consented (x.push (fun _ => []) w s) s where
  found := h.found
  doing := h.doing.push (lasting_issuedFor _ _) (issuing_of_keeps (hw _))
  confined k := by
    obtain ⟨g, hg⟩ := h.confined k
    refine ⟨g, fun t => ?_⟩
    change (w _ (x.pend t)).tokens.find? k = _
    rw [(hw _ _).2]
    exact hg t
  dead k hk r hr := by
    change ∃ r', (w _ (x.pend s)).tokens.find? k = some r' ∧ _
    rw [(hw _ _).2]
    exact h.dead k hk r hr

/-- A statement that writes the token `k` under its lock, and leaves it revoked where it was there before. -/
theorem Renewing.write (h : Renewing installId consented x s) {k : Uuid}
    {f : Table Uuid AppTokenRow → Table Uuid AppTokenRow}
    (hf : ∀ t : Db, TokensFrom (IssuedFor installId consented) t { t with tokens := f t.tokens })
    (hother : ∀ (t : Table Uuid AppTokenRow) j, j ≠ k → (f t).find? j = t.find? j)
    (hself : ∃ g : Option AppTokenRow → Option AppTokenRow, ∀ t, (f t).find? k = g (t.find? k))
    (hdead : ∀ r, s.tokens.find? k = some r →
      ∃ r', (f (x.pend s).tokens).find? k = some r' ∧ r'.revokedAt.isSome = true) :
    Renewing installId consented (x.push (fun _ => [.token k]) (fun _ db => { db with tokens := f db.tokens }) s) s
      where
  found := h.found
  doing := h.doing.push (lasting_issuedFor _ _) fun t => ⟨rfl, hf t⟩
  confined j := by
    obtain ⟨g, hg⟩ := h.confined j
    by_cases hj : j = k
    · subst hj
      obtain ⟨g', hg'⟩ := hself
      exact ⟨g' ∘ g, fun t => (hg' _).trans (congrArg g' (hg t))⟩
    · exact ⟨g, fun t => (hother _ j hj).trans (hg t)⟩
  dead j hj r hr := by
    by_cases hjk : j = k
    · subst hjk
      exact hdead r hr
    · change ∃ r', (f (x.pend s).tokens).find? j = some r' ∧ _
      rw [hother _ j hjk]
      refine h.dead j ?_ r hr
      rcases List.mem_append.mp hj with hj | hj
      · cases List.mem_singleton.mp hj
        exact absurd rfl hjk
      · exact hj

theorem safe_insertToken {k : Uuid} {row : AppTokenRow} (hrow : IssuedFor installId consented row)
    (h : Renewing installId consented x s) (hcareful : Careful x.locks x.pend) :
    (insertToken k row).Safe grantTerms (fun y _ u => Renewing installId consented y u ∧ Careful y.locks y.pend) x
      s := by
  rw [← bind_pure (insertToken k row)]
  refine Prog.Safe.execute_bind fun u hu _ hcheck => Prog.Safe.pure fun v hv => ?_
  refine ⟨Renewing.rely (Renewing.write (h.rely hu) (f := fun t => t.insert k row) ?_ ?_ ?_ ?_) hv,
    (careful_insertToken k row).comp hcareful⟩
  · exact fun t => (issuing_insertToken [] hrow t).2
  · exact fun t j hj => Table.find?_insert_ne t row hj
  · refine ⟨fun r => r.or (some row), fun t => ?_⟩
    cases hk : t.find? k with
    | none => exact Table.find?_insert_self hk row
    | some r => exact Table.find?_insert_of_some hk row
  · -- the key was free
    intro r hr
    obtain ⟨r', hr', _⟩ := (hcareful.grows u).tokens.find? hr
    simp [hr'] at hcheck

theorem safe_revokeTokens (now : Timestamp) (ids : List Uuid) (h : Renewing installId consented x s)
    (hcareful : Careful x.locks x.pend) : (revokeTokens now ids).Safe grantTerms
      (fun y _ u => Renewing installId consented y u ∧ Careful y.locks y.pend) x s := by
  induction ids generalizing x s with
  | nil => exact fun u hu => ⟨h.rely hu, hcareful⟩
  | cons k ids ih =>
    refine Prog.Safe.executeReturning_bind fun u a hu _ _ => ?_
    have hu' := h.rely hu
    refine Prog.Safe.bind ((ih ?_ ?_).mono fun y _ v hy => fun w hw => ⟨hy.1.rely hw, hy.2⟩)
    · cases hlive : (x.pend u).isLive k with
      | true =>
        have hpush : x.push (fun _ => [.token k]) (fun v db => if v.isLive k then db.revokeToken now k else db) u =
            x.push (fun _ => [.token k]) (fun _ db => { db with tokens := db.tokens.modify k (·.revoke now) }) u := by
          simp only [Trail.push, hlive, if_true]
          rfl
        rw [hpush]
        refine hu'.write (f := fun t => t.modify k (·.revoke now)) ?_ ?_ ?_ fun r hr => ?_
        · exact fun t => (issuing_revokeToken [] now k t).2
        · exact fun t j hj => Table.find?_modify_ne t _ hj
        · exact ⟨fun r => r.map (·.revoke now), fun t => Table.find?_modify_self t k _⟩
        · obtain ⟨r', hr', _⟩ := (hcareful.grows u).tokens.find? hr
          exact ⟨r'.revoke now, by rw [Table.find?_modify_self, hr']; rfl, rfl⟩
      | false =>
        have hpush : x.push (fun _ => [.token k]) (fun v db => if v.isLive k then db.revokeToken now k else db) u =
            x.push (fun _ => [.token k]) (fun _ db => { db with tokens := db.tokens }) u := by
          simp only [Trail.push, hlive, Bool.false_eq_true, if_false]
        rw [hpush]
        refine hu'.write (f := fun t => t) ?_ ?_ ?_ fun r hr => ?_
        · exact fun t => .refl t
        · exact fun t j hj => rfl
        · exact ⟨fun r => r, fun t => rfl⟩
        · -- the row was there, and it is not live any more
          obtain ⟨r', hr', _⟩ := (hcareful.grows u).tokens.find? hr
          refine ⟨r', hr', ?_⟩
          simpa [Db.isLive, hr'] using hlive
    · have hwrite : Careful [.token k] fun db => if (x.pend u).isLive k then db.revokeToken now k else db := by
        split_ifs
        · exact careful_revokeToken now k
        · exact Careful.id _
      exact hwrite.comp hcareful

section
variable [TokenHash] [Formats]

theorem issuedFor_tokenRow (id : Uuid) (kind : TokenKind) (plaintext : String) (expiresAt : Timestamp) :
    IssuedFor installId consented (tokenRow id installId kind plaintext consented expiresAt) := ⟨rfl, rfl⟩

theorem safe_issueTokens (ctx : RequestCtx) (h : Renewing installId consented x s)
    (hcareful : Careful x.locks x.pend) : (issueTokens ctx installId consented).Safe grantTerms
      (fun y _ u => Renewing installId consented y u) x s := by
  refine Prog.Safe.bind ((safe_insertToken (issuedFor_tokenRow ..) h hcareful).mono fun y _ u hy => ?_)
  refine Prog.Safe.bind ((safe_insertToken (issuedFor_tokenRow ..) hy.1 hy.2).mono fun z _ v hz => ?_)
  exact fun w hw => hz.1.rely hw

theorem safe_reconsent (ctx : RequestCtx) (hx : x.pend = id) (hlocks : x.locks = []) :
    (reconsent ctx installId consented).Safe grantTerms (fun y _ u => Renewing installId consented y u) x s := by
  unfold reconsent
  simp only [fetchInstall, revokeInstallTokens, bind_assoc]
  refine Prog.Safe.query_bind fun u _ _ => Prog.Safe.okOr_bind fun existing hexisting => ?_
  refine Prog.Safe.require_bind fun _ => Prog.Safe.execute_bind fun v hv _ _ => ?_
  rw [hx, id_eq] at hexisting
  have hlook : (x.look u).pend = id := hx
  have hfound : (v.installs.find? installId).isSome = true := hv.grows.installs _ (by rw [hexisting]; rfl)
  have hrenewing : Renewing installId consented ((x.look u).push (fun _ => [.install installId])
      (fun _ db => { db with installs := db.installs.modify installId (·.setConsent consented) }) v) v := by
    refine ⟨hfound, (Doing.start hlook).install, fun k => ⟨fun r => r, fun t => ?_⟩, fun k hk => ?_⟩
    · change (x.pend t).tokens.find? k = _
      rw [hx]
      rfl
    · change _ ∈ [RowKey.install installId] ++ x.locks at hk
      rw [hlocks] at hk
      simp at hk
  have hcareful : Careful ((x.look u).push (fun _ => [.install installId])
      (fun _ db => { db with installs := db.installs.modify installId (·.setConsent consented) }) v).locks
      ((x.look u).push (fun _ => [.install installId])
      (fun _ db => { db with installs := db.installs.modify installId (·.setConsent consented) }) v).pend := by
    refine (careful_modifyInstall _ _ _).comp ?_
    rw [hlook]
    exact Careful.id _
  refine Prog.Safe.query_bind fun w hw _ => ?_
  have hsnapshot := (hrenewing.rely hw).aside (w := fun _ t => t) fun _ _ => ⟨rfl, rfl⟩
  refine Prog.Safe.bind ((safe_revokeTokens ctx.now _ hsnapshot hcareful).mono fun y _ a hy => ?_)
  refine Prog.Safe.bind ((safe_issueTokens ctx hy.1 hy.2).mono fun z _ b hz => ?_)
  refine Prog.Safe.query_bind fun c hc _ => Prog.Safe.okOr_bind fun _ _ => ?_
  refine Prog.Safe.execute_bind fun d hd _ _ => Prog.Safe.pure fun e he => ?_
  have hread := (hz.rely hc).aside (w := fun _ t => t) fun _ _ => ⟨rfl, rfl⟩
  exact Renewing.rely (Renewing.aside (hread.rely hd) fun _ _ => ⟨rfl, rfl⟩) he

theorem safe_reconsentEndpoint [TimeFormats] (ctx : RequestCtx) (user : Uuid) (publicId : String)
    (scopes : List String) : (reconsentEndpoint ctx user publicId scopes).Safe grantTerms
      (fun y _ u => ∃ id consented, parsePublicId .marketplaceInstall publicId = .ok id ∧
        (∀ p, p ∈ consented ↔ p ∈ scopes) ∧ Renewing id consented y u) .start s := by
  unfold reconsentEndpoint
  simp only [authorize, fetchByUuid, bind_assoc, pure_bind]
  refine Prog.Safe.query_bind fun u _ _ => Prog.Safe.ofExcept_bind fun _ _ => Prog.Safe.ofExcept_bind fun _ _ => ?_
  refine Prog.Safe.ofExcept_bind fun installId hparse => ?_
  simp only [fetchInstall, bind_assoc]
  refine Prog.Safe.query_bind fun v _ _ => Prog.Safe.okOr_bind fun existing _ => ?_
  refine Prog.Safe.query_bind fun w _ _ => Prog.Safe.okOr_bind fun listing _ => ?_
  refine Prog.Safe.ofExcept_bind fun consented hconsented => ?_
  refine Prog.Safe.bind ((safe_reconsent ctx rfl rfl).mono fun y _ a hy => fun b hb => ?_)
  exact ⟨installId, consented, hparse, (validateConsent_spec hconsented).2.2, hy.rely hb⟩

end

end

/-- Of the installs at most their end: an install that is active afterwards is as it was. -/
def Ending (g : Table Uuid InstallRow → Table Uuid InstallRow) : Prop :=
  ∀ t id i, (g t).find? id = some i → i.status = .active → t.find? id = some i

/-- The transaction issues no token and gives no install a new consent. -/
def Lapsing (x : Trail Db RowKey) : Prop := ∃ g, Ending g ∧ Doing g (fun _ => False) x

theorem ending_revoke (now : Timestamp) (revokedBy installId : Uuid) :
    Ending (·.modify installId (·.revoke now revokedBy)) := by
  intro t id i hi hactive
  by_cases hid : id = installId
  · subst hid
    rw [Table.find?_modify_self] at hi
    obtain ⟨r, _, rfl⟩ := Option.map_eq_some_iff.mp hi
    cases hactive
  · rwa [Table.find?_modify_ne _ _ hid] at hi

theorem ending_none : Ending fun installs => installs := fun _ _ _ hi _ => hi

theorem steady_lapsing : Prog.Steady grantTerms (Issuing fun _ => False) fun y _ => Lapsing y where
  rely _ h := h
  push hw h := by
    obtain ⟨g, hg, hdoing⟩ := h
    exact ⟨g, hg, hdoing.push lasting_none hw⟩

section
variable {x : Trail Db RowKey} {s : Db}

theorem Lapsing.start (hx : x.pend = id) : Lapsing x := ⟨_, ending_none, .start hx⟩

theorem safe_revokeInstall (ctx : RequestCtx) (installId user : Uuid) (hx : x.pend = id) :
    (revokeInstall ctx installId user).Safe grantTerms (fun y _ _ => Lapsing y) x s := by
  refine Prog.Safe.bind ((safe_of_idle (idle_fetchInstall _) _ hx).mono fun y existing u hy => ?_)
  split_ifs
  · exact fun _ _ => .start hy
  · refine Prog.Safe.execute_bind fun v _ _ _ => steady_lapsing.safe ?_ ⟨_, ending_revoke ctx.now user installId,
      (Doing.start hy).install⟩
    exact .bind (issuing_revokeInstallTokens _ _) fun _ => .bind (issuing_fetchInstall _) fun _ =>
      .bind (issuing_emitEvent _) fun _ => trivial

variable [TimeFormats]

theorem safe_uninstallEndpoint [Formats] (ctx : RequestCtx) (user : Uuid) (publicId : String) :
    (uninstallEndpoint ctx user publicId).Safe grantTerms (fun y _ _ => Lapsing y) .start s := by
  refine Prog.Safe.bind ((safe_of_idle (idle_authorize _ _) _ rfl).mono fun y _ u hy => ?_)
  refine Prog.Safe.ofExcept_bind fun installId _ => ?_
  exact Prog.Safe.bind ((safe_revokeInstall ctx installId user hy).mono fun z _ _ hz => fun _ _ => hz)

theorem safe_disconnectEndpoint (ctx : RequestCtx) (user : Uuid) (key : String) :
    (disconnectEndpoint ctx user key).Safe grantTerms (fun y _ _ => Lapsing y) .start s := by
  refine Prog.Safe.bind ((safe_of_idle (idle_authorize _ _) _ rfl).mono fun y _ u hy => ?_)
  refine Prog.Safe.bind ((safe_of_idle (idle_fetchActiveByConnector _) _ hy).mono fun z existing v hz => ?_)
  exact Prog.Safe.bind ((safe_revokeInstall ctx existing.1 user hz).mono fun _ _ _ h => fun _ _ => h)

theorem safe_authorizeEndpoint [TokenHash] [Formats] (ctx : RequestCtx) (user : Uuid) (body : AuthorizeRequest) :
    (authorizeEndpoint ctx user body).Safe grantTerms (fun y _ _ => Lapsing y) .start s := by
  refine steady_lapsing.safe ?_ (.start rfl)
  refine .bind (covered_of_idle (idle_authorize _ _) issuing_id) fun _ => .bind (Prog.covered_ofExcept _) fun _ => ?_
  refine .bind (covered_of_idle (idle_fetchPublished _) issuing_id) fun _ => .bind (Prog.covered_ofExcept _) fun _ => ?_
  refine .bind (.bind Prog.covered_require fun _ => .bind Prog.covered_require fun _ => ?_) fun _ => trivial
  exact .bind (Prog.covered_execute issuing_id fun _ _ => issuing_of_keeps fun _ => ⟨rfl, rfl⟩) fun _ => trivial

end

section
variable [TokenHash] [Formats] [TimeFormats] {s : Db}

theorem creates_createInstallEndpoint (ctx : RequestCtx) (user : Uuid) (body : CreateInstallRequest) :
    (createInstallEndpoint ctx user body).Safe grantTerms (fun y _ u => ∃ id row, Creating id row y u) .start s := by
  refine Prog.Safe.bind ((safe_of_idle (idle_authorize _ _) _ rfl).mono fun y _ u hy => ?_)
  refine Prog.Safe.ofExcept_bind fun listingId _ => ?_
  refine Prog.Safe.bind ((safe_of_idle (idle_fetchPublished _) _ hy).mono fun z listing v hz => ?_)
  refine Prog.Safe.ofExcept_bind fun consented _ => ?_
  refine Prog.Safe.bind ((safe_createInstall ctx user listingId listing consented hz).mono fun _ _ _ h =>
    fun _ hu => ?_)
  exact ⟨_, _, (steady_creating _ _).rely hu h⟩

theorem creates_connectEndpoint (ctx : RequestCtx) (user : Uuid) (key : String) (scopes : Option (List String)) :
    (connectEndpoint ctx user key scopes).Safe grantTerms (fun y _ u => ∃ id row, Creating id row y u) .start s := by
  refine Prog.Safe.bind ((safe_of_idle (idle_authorize _ _) _ rfl).mono fun y _ u hy => ?_)
  refine Prog.Safe.bind ((safe_of_idle (idle_fetchPublishedByConnector _) _ hy).mono fun z listing v hz => ?_)
  refine Prog.Safe.require_bind fun _ => Prog.Safe.ofExcept_bind fun consented _ => ?_
  refine Prog.Safe.bind ((safe_createInstall ctx user listing.1 listing.2 consented hz).mono fun _ _ _ h =>
    fun _ hu => ?_)
  exact ⟨_, _, (steady_creating _ _).rely hu h⟩

end

end Noxara.Marketplace
