import Noxara.ScimUsers

/-! Access of users whom the identity provider has deactivated. The identity and the membership are two
records; what keeps them in step is read off each request. -/
namespace Noxara.Workspace

open Authz Transaction
open Finance (Uuid Timestamp Formats AppError)

inductive ScimOp
  | createUser (ctx : RequestCtx) (body : ScimUserBody)
  | replaceUser (ctx : RequestCtx) (id : String) (body : ScimUserBody)
  | patchUser (ctx : RequestCtx) (id : String) (body : Json)
  | deleteUser (ctx : RequestCtx) (id : String)
  | suspendMember (ctx : RequestCtx) (targetUser : String)
  | revokeMember (ctx : RequestCtx) (targetUser : String)

/-- A request as a transaction, whatever it answers. -/
def settle {ε α : Type} (f : ε → AppError ⊕ ScimError) (p : Prog Store Lock ε α) :
    Prog Store Lock (AppError ⊕ ScimError) Unit := do
  let _ ← p.mapError f

def ScimOp.body [Formats] [Casing] : ScimOp → Prog Store Lock (AppError ⊕ ScimError) Unit
  | createUser ctx body => settle .inr (Workspace.createUser ctx body)
  | replaceUser ctx id body => settle .inr (Workspace.replaceUser ctx id body)
  | patchUser ctx id body => settle .inr (Workspace.patchUser ctx id body)
  | deleteUser ctx id => settle .inr (Workspace.deleteUser ctx id)
  | suspendMember ctx targetUser => settle .inl (Workspace.suspendMember ctx targetUser)
  | revokeMember ctx targetUser => settle .inl (Workspace.revokeMember ctx targetUser)

def Gone (s : Store) (userId : Uuid) : Prop :=
  (∀ m, s.memberships.find? userId = some m → ¬m.Active) ∧
    ∀ id r, s.sessions.find? id = some r → r.userId = userId → r.revokedAt ≠ none

/-- `externalId` is an identity of the user. -/
def Names (s : Store) (userId : Uuid) (externalId : String) (active : Bool) : Prop :=
  s.scimIdentities.find? externalId = some ⟨some userId, active⟩

/-- A user with identities, all of them inactive, is gone. -/
def Deprovisioned (s : Store) : Prop :=
  ∀ userId, (∃ externalId active, Names s userId externalId active) →
    (∀ externalId, ¬Names s userId externalId true) → Gone s userId

/-- A replacement or change that does not carry `active = true`. -/
def ScimOp.Silent : ScimOp → Prop
  | replaceUser _ _ body => body.active ≠ some true
  | patchUser _ _ body => patchActive body ≠ some true
  | _ => False

/-- A membership that was suspended or revoked is active after the step. -/
def Reactivates (s t : Store) : Prop :=
  ∃ userId m m', s.memberships.find? userId = some m ∧ m.status ≠ .active ∧
    t.memberships.find? userId = some m' ∧ m'.status = .active

/-- The user of an address, or the one that would be made for it. -/
def namedUser (s : Store) (ctx : RequestCtx) (email : String) : Uuid :=
  ((s.users.rows.find? fun r => r.2.emailNormalized = email).map Prod.fst).getD (ctx.fresh 0)

def ActiveElsewhere (s : Store) (userId : Uuid) (externalId : String) : Prop :=
  ∃ other, other ≠ externalId ∧ Names s userId other true

/-- Where a request without `active` leaves an active identity, the membership is active already. -/
def StaysActive (s : Store) (externalId : String) : Prop :=
  ∀ userId m, Names s userId externalId true → s.memberships.find? userId = some m → m.status = .active

def ScimOp.Keeps [Formats] [Casing] (s : Store) : ScimOp → Prop
  | createUser ctx body => ∀ email, body.address = some email →
      -- the user is provisioned as active, or has another active identity
      (body.active.getD true = true ∨
        ActiveElsewhere s (namedUser s ctx email) (body.identityId ctx)) ∧
      -- whoever had the identity before keeps an active one, or none, or is gone
      ∀ former, former ≠ namedUser s ctx email → Names s former (body.identityId ctx) true →
        ActiveElsewhere s former (body.identityId ctx) ∨
        (∀ other active, other ≠ body.identityId ctx → ¬Names s former other active) ∨ Gone s former
  | replaceUser _ id body => body.active = none → StaysActive s id
  | patchUser _ id body => patchActive body = none → StaysActive s id
  | _ => True

theorem run_settle {ε α : Type} {f : ε → AppError ⊕ ScimError} {p : Prog Store Lock ε α} {s t : Store}
    {u : Unit} (h : (settle f p).run s = .ok (u, t)) : ∃ a, p.run s = .ok (a, t) := by
  obtain ⟨a, v, hv, ht⟩ := Prog.run_bind_ok.mp h
  cases ht
  rw [Prog.run_mapError] at hv
  cases hp : p.run s with
  | error e =>
    rw [hp] at hv
    cases hv
  | ok r =>
    rw [hp] at hv
    cases hv
    exact ⟨a, rfl⟩

theorem provisionedUser_ok [Formats] {ctx : RequestCtx} {email display : String} {s t : Store} {u : Uuid}
    (h : (provisionedUser ctx email display).run s = .ok (u, t)) :
    u = namedUser s ctx email ∧ ∃ users, t = s.setUsers fun _ => users := by
  simp only [provisionedUser, Prog.run_execute_bind_ok, Prog.run_query_bind] at h
  obtain ⟨hcheck, h⟩ := h
  by_cases hthere : (s.users.rows.any fun r => r.2.emailNormalized = email) = true
  · simp only [hthere, if_true] at h
    cases h
    exact ⟨rfl, s.users, rfl⟩
  · simp only [hthere] at h hcheck
    cases h
    have hnew : ctx.fresh 0 ∉ s.users.keys := by
      intro hin
      simp [hin] at hcheck
    have hnone : s.users.rows.find? (fun r => r.2.emailNormalized = email) = none := by
      rw [List.find?_eq_none]
      simpa using hthere
    refine ⟨?_, _, rfl⟩
    simp only [namedUser, hnone]
    have hrows := Table.rows_insert (Table.find?_eq_none.mpr hnew)
      (⟨publicIdStr .user (ctx.fresh 0), email, display⟩ : UserRow)
    change ((List.find? _ (s.users.insert (ctx.fresh 0) _).rows).map Prod.fst).getD _ = _
    rw [hrows, List.find?_append, hnone]
    simp

theorem createUser_ok [Formats] [Casing] {ctx : RequestCtx} {body : ScimUserBody} {a : ScimResponse}
    {s t : Store} (h : (createUser ctx body).run s = .ok (a, t)) :
    ∃ email users roleId, body.address = some email ∧
      t = (provisionMembership (ctx.fresh 1) (namedUser s ctx email) roleId
        (s.setUsers fun _ => users)).setScimIdentities
          (·.upsert (body.identityId ctx) ⟨some (namedUser s ctx email), body.active.getD true⟩) := by
  simp only [createUser, Prog.run_okOr_bind_ok] at h
  obtain ⟨email, hemail, h⟩ := h
  obtain ⟨u, v, hv, hbody⟩ := Prog.run_bind_ok.mp h
  obtain ⟨rfl, users, rfl⟩ := provisionedUser_ok hv
  simp only [Prog.run_query_bind, Prog.run_execute_bind_ok] at hbody
  obtain ⟨_, _, hbody⟩ := hbody
  cases hbody
  exact ⟨email, users, _, hemail, rfl⟩

theorem getUser_ok {id : String} {a : ScimResponse} {s t : Store}
    (h : (getUser id).run s = .ok (a, t)) : t = s := by
  simp only [getUser, Prog.run_query_bind] at h
  split at h
  · cases h
    rfl
  · simp only [Prog.run_query_bind] at h
    split at h <;> (cases h; rfl)

theorem mem_openSessionsOf {userId id : Uuid} {s : Store} : id ∈ openSessionsOf userId s ↔
    ∃ r, s.sessions.find? id = some r ∧ r.userId = userId ∧ r.revokedAt = none := by
  rw [openSessionsOf, Table.mem_map_fst_filter (p := fun r : SessionRow => r.userId = userId ∧ r.revokedAt = none)]
  simp only [decide_eq_true_eq]

theorem notOpenOf_closeSession (now : Timestamp) (reason : String) (userId id : Uuid) (s : Store) :
    id ∉ openSessionsOf userId (closeSession now reason id s) := by
  rw [mem_openSessionsOf]
  rintro ⟨r, hr, _, hopen⟩
  exact revoked_closeSession hr hopen

theorem Closes.notOpenOf {s t : Store} (h : Closes s t) {userId id : Uuid} (hs : id ∉ openSessionsOf userId s) :
    id ∉ openSessionsOf userId t := by
  rw [mem_openSessionsOf] at hs ⊢
  rintro ⟨r', hr', huser', hopen'⟩
  obtain ⟨r, hr, huser, _, hopen⟩ := h id r' hr'
  exact hs ⟨r, hr, huser.symm.trans huser', hopen hopen'⟩

theorem closeSessions_ok {now : Timestamp} {userId : Uuid} {s t : Store} {a : Unit}
    (h : (Prog.updateRows (openSessionsOf userId) .session (fun v id => id ∈ openSessionsOf userId v)
      (closeSession now "scim_deprovision") : ScimTx Unit).run s = .ok (a, t)) :
    t.members = s.members ∧ Closes s t ∧
      ∀ id r, t.sessions.find? id = some r → r.userId = userId → r.revokedAt ≠ none := by
  refine ⟨?_, ?_, fun id r hr huser hopen => ?_⟩
  · have hw : (Prog.updateRows (openSessionsOf userId) .session
        (fun v id => id ∈ openSessionsOf userId v) (closeSession now "scim_deprovision") :
        ScimTx Unit).Writes (Prog.Keeps Store.members) :=
      Prog.writes_updateRows (.id _) fun _ _ => rfl
    obtain ⟨f, hf, ht⟩ := hw.run_ok (.id _) (fun _ _ => .comp) h
    change t = f s at ht
    rw [ht, hf]
  · exact .of_writes (Prog.writes_updateRows Closes.refl fun id v => closes_closeSession _ _ id v) h
  · have hnone : openSessionsOf userId t = [] :=
      Prog.updateRows_none (fun i v => notOpenOf_closeSession now _ userId i v)
        (fun i j v hi => (closes_closeSession now _ j v).notOpenOf hi) h
    have hin : id ∈ openSessionsOf userId t := mem_openSessionsOf.mpr ⟨r, hr, huser, hopen⟩
    rw [hnone] at hin
    cases hin

/-- What taking the access away leaves. -/
theorem deprovision_ok {now : Timestamp} {userId : Uuid} {s t : Store} {a : Unit}
    (h : (deprovision now userId).run s = .ok (a, t)) :
    Gone t userId ∧ Closes s t ∧ t.scimIdentities = s.scimIdentities ∧
      ∀ u m', t.memberships.find? u = some m' → m'.status = .active →
        s.memberships.find? u = some m' := by
  simp only [deprovision, Prog.run_execute_bind_ok] at h
  obtain ⟨-, h⟩ := h
  obtain ⟨hmembers, hcloses, hsessions⟩ := closeSessions_ok h
  cases hlive : s.liveMembership userId with
  | none =>
    simp only [hlive, Option.isSome_none, Bool.false_eq_true, if_false] at hmembers hcloses
    have hm := memberships_of_members hmembers
    refine ⟨⟨fun m hfind hactive => ?_, hsessions⟩, hcloses, scimIdentities_of_members hmembers, ?_⟩
    · rw [hm] at hfind
      rw [liveMembership_eq_some.mpr ⟨hfind, hactive.2⟩] at hlive
      cases hlive
    · intro u m' hfind _
      rwa [hm] at hfind
  | some m₀ =>
    simp only [hlive, Option.isSome_some, if_true] at hmembers hcloses
    have hm : t.memberships = s.memberships.modify userId fun m =>
        { m with revokedAt := some now, status := .revoked } := memberships_of_members hmembers
    have hscim := scimIdentities_of_members hmembers
    refine ⟨⟨fun m hfind hactive => ?_, hsessions⟩, hcloses, hscim, ?_⟩
    · rw [hm, Table.find?_modify_self] at hfind
      obtain ⟨m, _, rfl⟩ := Option.map_eq_some_iff.mp hfind
      cases hactive.1
    · intro u m' hfind hactive
      rw [hm] at hfind
      by_cases hu : u = userId
      · subst hu
        rw [Table.find?_modify_self] at hfind
        obtain ⟨m, _, rfl⟩ := Option.map_eq_some_iff.mp hfind
        cases hactive
      · rwa [Table.find?_modify_ne _ _ hu] at hfind

theorem patchUserInner_ok {ctx : RequestCtx} {id : String} {bodyActive : Option Bool} {a : ScimResponse}
    {s t : Store} (h : (patchUserInner ctx id bodyActive).run s = .ok (a, t)) :
    t = s ∨ ∃ userId prev, Names s userId id prev ∧
      (if bodyActive.getD prev then reprovision userId else deprovision ctx.now userId).run
        (s.setScimIdentities (·.modify id fun i => { i with active := bodyActive.getD prev })) =
          .ok ((), t) := by
  simp only [patchUserInner, Prog.run_query_bind] at h
  cases hrow : s.scimIdentities.find? id with
  | none =>
    simp only [hrow] at h
    cases h
    exact .inl rfl
  | some row =>
    obtain ⟨owner, prev⟩ := row
    cases owner with
    | none =>
      simp only [hrow] at h
      cases h
      exact .inl rfl
    | some userId =>
      simp only [hrow, Option.bind_some, Option.map_some, Prog.run_execute_bind_ok] at h
      obtain ⟨-, h⟩ := h
      right
      refine ⟨userId, prev, hrow, ?_⟩
      split_ifs at h ⊢ with hactive
      · obtain ⟨_, v, hv, hget⟩ := Prog.run_bind_ok.mp h
        obtain rfl := getUser_ok hget
        exact hv
      · obtain ⟨_, v, hv, hget⟩ := Prog.run_bind_ok.mp h
        obtain rfl := getUser_ok hget
        exact hv

section
variable {s t : Store} {u : Uuid}

theorem Deprovisioned.of_closes (h : Deprovisioned s) (hi : t.scimIdentities = s.scimIdentities)
    (hc : Closes s t) (hm : ∀ u m', t.memberships.find? u = some m' → m'.Active →
      ∃ m, s.memberships.find? u = some m ∧ m.Active) : Deprovisioned t := by
  rintro u ⟨ext, active, hname⟩ hall
  have hnames : ∀ ext active, Names t u ext active ↔ Names s u ext active := by
    intro ext active
    rw [Names, Names, hi]
  obtain ⟨hgone, hclosed⟩ := h u ⟨ext, active, (hnames _ _).mp hname⟩
    fun ext hact => hall ext ((hnames _ _).mpr hact)
  refine ⟨fun m' hm' hact => ?_, fun id r' hr' huser hopen => ?_⟩
  · obtain ⟨m, hfind, hact⟩ := hm u m' hm' hact
    exact hgone m hfind hact
  · obtain ⟨r, hr, huser', _, hopen'⟩ := hc id r' hr'
    exact hclosed id r hr (huser'.symm.trans huser) (hopen' hopen)

theorem Gone.of_closes (h : Gone s u) (hc : Closes s t)
    (hm : ∀ m', t.memberships.find? u = some m' → m'.Active →
      ∃ m, s.memberships.find? u = some m ∧ m.Active) : Gone t u := by
  refine ⟨fun m' hm' hact => ?_, fun id r' hr' huser hopen => ?_⟩
  · obtain ⟨m, hfind, hact⟩ := hm m' hm' hact
    exact h.1 m hfind hact
  · obtain ⟨r, hr, huser', _, hopen'⟩ := hc id r' hr'
    exact h.2 id r hr (huser'.symm.trans huser) (hopen' hopen)

theorem deprovisioned_createUser [Formats] [Casing] {ctx : RequestCtx} {body : ScimUserBody}
    {a : ScimResponse} (h : (createUser ctx body).run s = .ok (a, t))
    (hk : (ScimOp.createUser ctx body).Keeps s) (hd : Deprovisioned s) : Deprovisioned t := by
  obtain ⟨email, users, roleId, hemail, rfl⟩ := createUser_ok h
  obtain ⟨hactive, hformer⟩ := hk email hemail
  generalize namedUser s ctx email = named at hactive hformer ⊢
  generalize body.identityId ctx = ext at hactive hformer ⊢
  -- the other users keep their memberships, and everyone the other identities
  have hself : ∀ {u active}, Names ((provisionMembership (ctx.fresh 1) named roleId
      (s.setUsers fun _ => users)).setScimIdentities (·.upsert ext ⟨some named, body.active.getD true⟩))
      u ext active → u = named ∧ active = body.active.getD true := by
    intro u active hname
    have hrow := Table.find?_upsert_self s.scimIdentities ext
      ⟨some named, body.active.getD true⟩
    cases Option.some.inj (hrow.symm.trans hname)
    exact ⟨rfl, rfl⟩
  have hother : ∀ {u ext' active}, ext' ≠ ext → (Names ((provisionMembership (ctx.fresh 1) named roleId
      (s.setUsers fun _ => users)).setScimIdentities (·.upsert ext ⟨some named, body.active.getD true⟩))
      u ext' active ↔ Names s u ext' active) := by
    intro u ext' active hne
    have hrow := Table.find?_upsert_ne s.scimIdentities
      (⟨some named, body.active.getD true⟩ : ScimIdentityRow) hne
    exact ⟨fun hname => hrow.symm.trans hname, fun hname => hrow.trans hname⟩
  have hmemberships : ∀ u, u ≠ named → (provisionMembership (ctx.fresh 1) named roleId
      (s.setUsers fun _ => users)).memberships.find? u = s.memberships.find? u := by
    intro u hu
    simp only [provisionMembership, Store.setMemberships, Store.setUsers]
    split
    · exact Table.find?_modify_ne _ _ hu
    · exact Table.find?_insert_ne _ _ hu
  rintro u ⟨ext', active, hname⟩ hall
  by_cases hu : u = named
  · subst hu
    exfalso
    rcases hactive with hact | ⟨other, hne, hact⟩
    · refine hall ext ?_
      have hrow := Table.find?_upsert_self s.scimIdentities ext ⟨some u, body.active.getD true⟩
      exact hrow.trans (by rw [hact])
    · exact hall other ((hother hne).mpr hact)
  · have hne : ext' ≠ ext := by
      rintro rfl
      exact hu (hself hname).1
    have hbefore := (hother hne).mp hname
    have hgone : Gone s u := by
      by_cases hwas : Names s u ext true
      · rcases hformer u hu hwas with ⟨other, hother', hact⟩ | hnone | hgone
        · exact absurd ((hother hother').mpr hact) (hall other)
        · exact absurd hbefore (hnone ext' active hne)
        · exact hgone
      · refine hd u ⟨ext', active, hbefore⟩ fun other hact => ?_
        by_cases ho : other = ext
        · exact hwas (ho ▸ hact)
        · exact hall other ((hother ho).mpr hact)
    refine hgone.of_closes (.refl s) fun m' hm' hact => ⟨m', ?_, hact⟩
    exact (hmemberships u hu).symm.trans hm'

theorem deprovisioned_patchUserInner {ctx : RequestCtx} {id : String} {bodyActive : Option Bool}
    {a : ScimResponse} (h : (patchUserInner ctx id bodyActive).run s = .ok (a, t))
    (hd : Deprovisioned s) : Deprovisioned t := by
  rcases patchUserInner_ok h with rfl | ⟨userId, prev, hname, hrun⟩
  · exact hd
  generalize bodyActive.getD prev = active at hrun
  have hself : (s.scimIdentities.modify id fun i => { i with active := active }).find? id =
      some ⟨some userId, active⟩ := by
    rw [Table.find?_modify_self, hname]
    rfl
  have hother : ∀ {ext}, ext ≠ id → (s.scimIdentities.modify id fun i => { i with active := active }).find?
      ext = s.scimIdentities.find? ext := fun hne => Table.find?_modify_ne _ _ hne
  have hnames : t.scimIdentities = s.scimIdentities.modify id (fun i => { i with active := active }) ∧
      Closes s t ∧ (∀ u m', u ≠ userId → t.memberships.find? u = some m' → m'.Active →
        s.memberships.find? u = some m') ∧ (active = false → Gone t userId) := by
    cases active with
    | true =>
      simp only [if_true, reprovision, Prog.run_execute_ok, Prod.mk.injEq, true_and] at hrun
      subst hrun
      refine ⟨rfl, .refl _, fun u m' hu hm' _ => ?_, fun h => by cases h⟩
      have hkeep := Table.find?_modify_ne s.memberships
        (fun m => { m with revokedAt := none, status := .active }) hu
      exact hkeep.symm.trans hm'
    | false =>
      simp only [Bool.false_eq_true, if_false] at hrun
      obtain ⟨hgone, hcloses, hi, hm⟩ := deprovision_ok hrun
      exact ⟨hi, hcloses, fun u m' _ hm' hact => hm u m' hm' hact.1, fun _ => hgone⟩
  obtain ⟨hi, hcloses, hm, hgone⟩ := hnames
  rintro u ⟨ext, active', hext⟩ hall
  by_cases hu : u = userId
  · subst hu
    cases active with
    | true => exact absurd (by rw [Names, hi]; exact hself) (hall id)
    | false => exact hgone rfl
  · have hne : ∀ {ext active'}, Names t u ext active' → ext ≠ id := by
      rintro ext active' hnow rfl
      rw [Names, hi, hself] at hnow
      cases hnow
      exact hu rfl
    have hsame : ∀ {ext active'}, Names t u ext active' → Names s u ext active' := by
      intro ext active' hnow
      have hne' := hne hnow
      rw [Names, hi, hother hne'] at hnow
      exact hnow
    refine (hd u ⟨ext, active', hsame hext⟩ fun other hact => ?_).of_closes hcloses
      fun m' hm' hact => ⟨m', hm u m' hu hm' hact, hact⟩
    by_cases ho : other = id
    · subst ho
      cases hname.symm.trans hact
      exact hu rfl
    · refine hall other ?_
      rw [Names, hi, hother ho]
      exact hact

theorem deprovisioned_of_leaving {now : Timestamp} {target : Uuid} {f : MembershipRow → MembershipRow}
    (hf : ∀ m, ¬(f m).Active) {n : Nat} {v : Store} {events : List Event}
    (hrev : (revokeOrgUserSessions now target : Tx Nat).run
      (s.setMemberships (·.modify target f)) = .ok (n, v)) (hd : Deprovisioned s) :
    Deprovisioned { v with outbox := events } := by
  have hmembers := members_revokeOrgUserSessions hrev
  obtain ⟨hcloses, -⟩ := revokeFamilies_ok hrev
  have hm := memberships_of_members hmembers
  have hi := scimIdentities_of_members hmembers
  refine hd.of_closes hi hcloses fun u m' hm' hact => ⟨m', ?_, hact⟩
  change v.memberships.find? u = some m' at hm'
  rw [hm] at hm'
  by_cases hu : u = target
  · subst hu
    have hself := Table.find?_modify_self s.memberships u f
    obtain ⟨m, _, rfl⟩ := Option.map_eq_some_iff.mp (hself.symm.trans hm')
    exact absurd hact (hf m)
  · exact (Table.find?_modify_ne s.memberships f hu).symm.trans hm'

theorem ScimOp.Keeps.deprovisioned [Formats] [Casing] {op : ScimOp} {a : Unit} (hk : op.Keeps s)
    (h : op.body.run s = .ok (a, t)) (hd : Deprovisioned s) : Deprovisioned t := by
  cases op with
  | createUser ctx body =>
    obtain ⟨r, hr⟩ := run_settle h
    exact deprovisioned_createUser hr hk hd
  | replaceUser ctx id body =>
    obtain ⟨r, hr⟩ := run_settle h
    exact deprovisioned_patchUserInner hr hd
  | patchUser ctx id body =>
    obtain ⟨r, hr⟩ := run_settle h
    exact deprovisioned_patchUserInner hr hd
  | deleteUser ctx id =>
    obtain ⟨r, hr⟩ := run_settle h
    obtain ⟨x, v, hv, hx⟩ := Prog.run_bind_ok.mp hr
    cases hx
    exact deprovisioned_patchUserInner hv hd
  | suspendMember ctx targetUser =>
    obtain ⟨r, hr⟩ := run_settle h
    obtain ⟨target, m, n, v, events, -, -, -, hrev, rfl⟩ := suspendMember_ok hr
    exact deprovisioned_of_leaving (fun m h => by cases h.1) hrev hd
  | revokeMember ctx targetUser =>
    obtain ⟨r, hr⟩ := run_settle h
    obtain ⟨target, m, n, v, events, -, -, hrev, rfl⟩ := revokeMember_ok hr
    exact deprovisioned_of_leaving (fun m h => by cases h.1) hrev hd

theorem not_reactivates_patchUserInner {ctx : RequestCtx} {id : String} {bodyActive : Option Bool}
    {a : ScimResponse} (h : (patchUserInner ctx id bodyActive).run s = .ok (a, t))
    (hsilent : bodyActive ≠ some true) (hk : bodyActive = none → StaysActive s id) : ¬Reactivates s t := by
  rintro ⟨u, m, m', hm, hnot, hm', hactive⟩
  rcases patchUserInner_ok h with rfl | ⟨userId, prev, hname, hrun⟩
  · cases hm.symm.trans hm'
    exact hnot hactive
  · split_ifs at hrun with hact
    · -- only a request without `active` leaves the identity active
      have hnone : bodyActive = none ∧ prev = true := by
        cases hb : bodyActive with
        | none => exact ⟨rfl, by simpa [hb] using hact⟩
        | some b =>
          rw [hb, Option.getD_some] at hact
          exact absurd (by rw [hb, hact]) hsilent
      obtain ⟨hnone, rfl⟩ := hnone
      simp only [reprovision, Prog.run_execute_ok, Prod.mk.injEq, true_and] at hrun
      subst hrun
      by_cases hu : u = userId
      · subst hu
        exact hnot (hk hnone u m hname hm)
      · have hkeep := Table.find?_modify_ne s.memberships
          (fun m => { m with revokedAt := none, status := .active }) hu
        cases hm.symm.trans (hkeep.symm.trans hm')
        exact hnot hactive
    · obtain ⟨-, -, -, hkeep⟩ := deprovision_ok hrun
      have hbefore : s.memberships.find? u = some m' := hkeep u m' hm' hactive
      cases hm.symm.trans hbefore
      exact hnot hactive

theorem ScimOp.Keeps.not_reactivates [Formats] [Casing] {op : ScimOp} {a : Unit} (hk : op.Keeps s)
    (hsilent : op.Silent) (h : op.body.run s = .ok (a, t)) : ¬Reactivates s t := by
  cases op with
  | replaceUser ctx id body =>
    obtain ⟨r, hr⟩ := run_settle h
    exact not_reactivates_patchUserInner hr hsilent hk
  | patchUser ctx id body =>
    obtain ⟨r, hr⟩ := run_settle h
    exact not_reactivates_patchUserInner hr hsilent hk
  | createUser | deleteUser | suspendMember | revokeMember => exact hsilent.elim

/-- In every run whose requests meet the condition, users with inactive identities only are gone; and no
further such replacement or change that does not say `active = true` reactivates a membership. -/
theorem deactivated_without_access [Formats] [Casing] {steps : List (Store × ScimOp)}
    (h : Runs ScimOp.body s steps t) (h0 : Deprovisioned s) (hsteps : ∀ x ∈ steps, x.2.Keeps x.1) :
    Deprovisioned t ∧ ∀ (op : ScimOp) (a : Unit) (u : Store), op.Keeps t → op.Silent →
      op.body.run t = .ok (a, u) → ¬Reactivates t u := by
  refine ⟨?_, fun op a u hk hsilent hrun => hk.not_reactivates hsilent hrun⟩
  exact h.invariant (C := fun x => x.2.Keeps x.1) h0 hsteps fun v op a w hk hv hrun =>
    hk.deprovisioned hrun hv

end

/-- The provider creates a user with `active`. -/
def creating (active : Bool) : ScimOp :=
  .createUser (.nth 0) ⟨some "a@b.c", none, some "ext", some active, none⟩

theorem inactive_with_access :
    letI := Finance.canonicalFormats
    letI := canonicalCasing
    ∃ (t : Store) (steps : List (Store × ScimOp)),
      Runs ScimOp.body Store.empty steps t ∧ ¬Deprovisioned t := by
  let := Finance.canonicalFormats
  let := canonicalCasing
  obtain ⟨steps, t, hrun, hcheck⟩ := Runs.of_play ScimOp.body [creating false] Store.empty
    (fun _ t => t.scimIdentities.rows.all (fun r => r.2.active = false) &&
      t.scimIdentities.rows.any (fun r => r.2.userId = some 0) &&
      (t.memberships.find? 0).any fun m => m.status = .active && m.revokedAt.isNone) (by decide +kernel)
  simp only [Bool.and_eq_true, List.all_eq_true, List.any_eq_true, Option.any_eq_true,
    decide_eq_true_eq] at hcheck
  obtain ⟨⟨hall, row, hrow, hnames⟩, m, hm, hactive, hrevoked⟩ := hcheck
  refine ⟨t, steps, hrun, fun hd => ?_⟩
  obtain ⟨ext, owner, active⟩ := row
  obtain rfl : owner = some 0 := hnames
  refine (hd 0 ⟨ext, active, Table.find?_eq_some.mpr hrow⟩ fun other hother => ?_).1 m hm
    ⟨hactive, by simpa using hrevoked⟩
  cases hall _ (Table.find?_eq_some.mp hother)

/-- A member who is signed in, and whom the provider does not know yet. -/
def Store.oneSignedIn : Store := { Store.empty with
  users := Table.empty.insert 1 ⟨"usr_1", "a@b.c", "A"⟩
  memberships := Table.empty.insert 1 ⟨101, "mem_1", .member, none, none, none, 1, .active, none, none⟩
  sessions := Table.empty.insert 21 ⟨22, 1, 101, 0, none, none⟩ }

/-- A change of the provider's user: what the request says about `active`, if anything. -/
def changing (fields : List (String × Json)) : ScimOp :=
  .patchUser (.nth 3) "ext" (.ofFields fields)

/-- The user is taken up as active and then deactivated, which ends the session too. A later change of another field
leaves the membership revoked. -/
theorem deactivated_stays_out :
    letI := Finance.canonicalFormats
    letI := canonicalCasing
    ∃ v t u, Runs ScimOp.body .oneSignedIn
        [(.oneSignedIn, creating true), (v, changing [("active", .bool false)])] t ∧
      Names t 1 "ext" false ∧ Gone t 1 ∧
      (changing [("displayName", .string "B")]).body.run t = .ok ((), u) ∧ ¬Reactivates t u := by
  let := Finance.canonicalFormats
  let := canonicalCasing
  let deactivated (t : Store) : Bool := (t.scimIdentities.find? "ext").any (·.userId = some 1) &&
    t.scimIdentities.rows.all (fun i => i.2.active = false)
  obtain ⟨_, v, hv, hnext⟩ := Prog.run_of_check (p := (creating true).body) (s := .oneSignedIn)
    (P := fun _ v => ((changing [("active", .bool false)]).body.run v).toOption.any fun r => deactivated r.2 &&
      ((changing [("displayName", .string "B")]).body.run r.2).toOption.any fun _ => true) (by decide +kernel)
  obtain ⟨_, t, ht, hcheck⟩ := Prog.run_of_check (P := fun _ t => deactivated t &&
    ((changing [("displayName", .string "B")]).body.run t).toOption.any fun _ => true) hnext
  obtain ⟨hidentities, hlast⟩ := Bool.and_eq_true_iff.mp hcheck
  obtain ⟨_, u, hu, -⟩ := Prog.run_of_check (P := fun _ _ => true) hlast
  simp only [deactivated, Bool.and_eq_true, List.all_eq_true, Option.any_eq_true, decide_eq_true_eq] at hidentities
  obtain ⟨⟨⟨owner, active⟩, hfind, howner⟩, hall⟩ := hidentities
  have hname : Names t 1 "ext" false := by
    rw [Names, hfind, show owner = some 1 from howner, show active = false from hall _ (Table.find?_eq_some.mp hfind)]
  have hnone : ∀ userId ext, ¬Names t userId ext true := by
    intro userId ext hname
    cases hall _ (Table.find?_eq_some.mp hname)
  have hempty : ∀ u ext active, ¬Names .oneSignedIn u ext active := fun _ _ _ h => by cases h
  have hstart : Runs ScimOp.body .oneSignedIn [] .oneSignedIn := .nil _
  have hruns := (hstart.step hv).step ht
  obtain ⟨hgone, hstays⟩ := deactivated_without_access hruns (fun u h _ => absurd h.choose_spec.choose_spec
    (hempty u _ _)) (by
    intro x hx
    rcases List.mem_pair.mp hx with rfl | rfl
    · exact fun email _ => ⟨.inl rfl, fun former _ h => by cases h⟩
    · exact fun h => by cases h)
  refine ⟨v, t, u, hruns, hname, hgone 1 ⟨"ext", false, hname⟩ (hnone 1), hu, hstays _ _ _ ?_ ?_ hu⟩
  · exact fun _ userId _ h => absurd h (hnone userId _)
  · exact fun h => by cases h

end Noxara.Workspace
