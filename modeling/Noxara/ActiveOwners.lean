import Noxara.ScimAccess

/-! The active owners of an organization under everything that writes memberships, side by side. -/
namespace Noxara.Workspace

open Authz Transaction
open Finance (Uuid Formats AppError)

inductive MemberOp
  | scim (op : ScimOp)
  | changeMemberRole (ctx : RequestCtx) (targetUser roleRef : String)
  | acceptInvitation (ctx : RequestCtx) (body : AcceptInviteRequest)

def MemberOp.body [Formats] [Casing] [TokenHash] :
    MemberOp → Prog Store Lock (AppError ⊕ ScimError) Unit
  | scim op => op.body
  | changeMemberRole ctx targetUser roleRef =>
    settle .inl (Workspace.changeMemberRole ctx targetUser roleRef)
  | acceptInvitation ctx body => settle .inl (Workspace.acceptInvitation ctx body)

/-- The membership of the user is an active owner's. -/
def Store.OwnedBy (s : Store) (u : Uuid) : Prop := ∃ m, s.memberships.find? u = some m ∧ m.ActiveOwner

def Store.HasOwner (s : Store) : Prop := ∃ u, s.OwnedBy u

/-- A statement that takes an active owner away leaves another one, whom no transaction in flight has
taken away. -/
def LeavesOwner {ι ε α : Type} (c d : Config ι Store Lock ε α) : Prop :=
  ∀ i t t' u, c.threads i = .running t → d.threads i = .running t' → c.db.OwnedBy u →
    (t.view c.db).OwnedBy u → ¬(t'.view c.db).OwnedBy u →
    ∃ o, o ≠ u ∧ c.db.OwnedBy o ∧ ∀ j v, c.threads j = .running v → (v.view c.db).OwnedBy o

abbrev KeepsMemberships : (Store → Store) → Prop := Prog.Keeps Store.memberships

/-- Every owner but `u` stays, and `u` stays or goes whatever the store is. -/
def ChangesOwner (u : Uuid) (f : Store → Store) : Prop :=
  (∀ s o, o ≠ u → s.OwnedBy o → (f s).OwnedBy o) ∧
    ((∀ s, s.OwnedBy u → (f s).OwnedBy u) ∨ ∀ s, s.OwnedBy u → ¬(f s).OwnedBy u)

def ChangesOneOwner (f : Store → Store) : Prop := ∃ u, ChangesOwner u f

theorem Store.OwnedBy.congr {s t : Store} {u : Uuid} (h : t.memberships = s.memberships) :
    t.OwnedBy u ↔ s.OwnedBy u := by
  simp only [Store.OwnedBy, h]

theorem changesOneOwner_of_keeps {f : Store → Store} (hf : KeepsMemberships f) : ChangesOneOwner f := by
  refine ⟨0, fun s o _ h => ?_, .inl fun s h => ?_⟩
  · exact (Store.OwnedBy.congr (hf s)).mpr h
  · exact (Store.OwnedBy.congr (hf s)).mpr h

theorem ChangesOneOwner.left (f g : Store → Store) (hf : KeepsMemberships f) (hg : ChangesOneOwner g) :
    ChangesOneOwner (f ∘ g) := by
  obtain ⟨u, hothers, hself⟩ := hg
  have hiff : ∀ s o, (f (g s)).OwnedBy o ↔ (g s).OwnedBy o := fun s o => Store.OwnedBy.congr (hf (g s))
  refine ⟨u, fun s o ho h => (hiff s o).mpr (hothers s o ho h), ?_⟩
  rcases hself with hstay | hgo
  · exact .inl fun s h => (hiff s u).mpr (hstay s h)
  · exact .inr fun s h hfg => hgo s h ((hiff s u).mp hfg)

theorem ChangesOneOwner.right (f g : Store → Store) (hf : ChangesOneOwner f) (hg : KeepsMemberships g) :
    ChangesOneOwner (f ∘ g) := by
  obtain ⟨u, hothers, hself⟩ := hf
  have hiff : ∀ s o, (g s).OwnedBy o ↔ s.OwnedBy o := fun s o => Store.OwnedBy.congr (hg s)
  refine ⟨u, fun s o ho h => hothers (g s) o ho ((hiff s o).mpr h), ?_⟩
  rcases hself with hstay | hgo
  · exact .inl fun s h => hstay (g s) ((hiff s u).mpr h)
  · exact .inr fun s h => hgo (g s) ((hiff s u).mpr h)

theorem changesOneOwner_of_row {u : Uuid} {g : Store → Store} {f : MembershipRow → MembershipRow}
    (hothers : ∀ s o, o ≠ u → (g s).memberships.find? o = s.memberships.find? o)
    (hself : ∀ s m, s.memberships.find? u = some m → (g s).memberships.find? u = some (f m))
    (hf : (∀ m, m.ActiveOwner → (f m).ActiveOwner) ∨ ∀ m, m.ActiveOwner → ¬(f m).ActiveOwner) :
    ChangesOneOwner g := by
  refine ⟨u, fun s o ho => ?_, ?_⟩
  · rintro ⟨m, hm, howner⟩
    exact ⟨m, (hothers s o ho).trans hm, howner⟩
  · rcases hf with hstay | hgo
    · left
      rintro s ⟨m, hm, howner⟩
      exact ⟨f m, hself s m hm, hstay m howner⟩
    · right
      rintro s ⟨m, hm, howner⟩ ⟨m', hm', howner'⟩
      cases (hself s m hm).symm.trans hm'
      exact hgo m howner howner'

section
variable (u : Uuid) {f : MembershipRow → MembershipRow}
  (hf : (∀ m, m.ActiveOwner → (f m).ActiveOwner) ∨ ∀ m, m.ActiveOwner → ¬(f m).ActiveOwner)
include hf

theorem changesOneOwner_modify : ChangesOneOwner fun s => s.setMemberships (·.modify u f) := by
  refine changesOneOwner_of_row (u := u) (fun s o ho => ?_) (fun s m hm => ?_) hf
  · exact Table.find?_modify_ne s.memberships f ho
  · have hself := Table.find?_modify_self s.memberships u f
    rwa [hm] at hself

theorem changesOneOwner_upsert (row : MembershipRow) : ChangesOneOwner fun s =>
    s.setMemberships fun t =>
      match t.find? u with
      | some _ => t.modify u f
      | none => t.insert u row := by
  refine changesOneOwner_of_row (u := u) (fun s o ho => ?_) (fun s m hm => ?_) hf
  · simp only [Store.setMemberships]
    split
    · exact Table.find?_modify_ne s.memberships f ho
    · exact Table.find?_insert_ne s.memberships row ho
  · have hself := Table.find?_modify_self s.memberships u f
    simp only [Store.setMemberships, hm]
    rwa [hm] at hself

end

abbrev OneOwner {ε α : Type} (p : Prog Store Lock ε α) : Prop :=
  p.ChangesOnce KeepsMemberships ChangesOneOwner

theorem oneOwner_settle {ε α : Type} (f : ε → AppError ⊕ ScimError) {p : Prog Store Lock ε α}
    (hp : OneOwner p) : OneOwner (settle f p) :=
  .before (hp.mapError f) fun _ => trivial

theorem writes_ensureNotLastOwner (target : Uuid) :
    (ensureNotLastOwner target).Writes KeepsMemberships := by
  unfold ensureNotLastOwner
  refine .bind (Prog.writes_query (.id _) _) fun row => ?_
  cases row with
  | none => trivial
  | some m =>
    dsimp only
    split_ifs
    · trivial
    · exact .bind (Prog.writes_query (.id _) _) fun count => Prog.writes_require

theorem writes_insertEvent (e : Event) : (insertEvent e).Writes KeepsMemberships :=
  Prog.writes_execute (.id _) fun _ _ _ => rfl

theorem writes_revokeOrgUserSessions (now : Finance.Timestamp) (u : Uuid) :
    (revokeOrgUserSessions now u : Tx Nat).Writes KeepsMemberships :=
  writes_revokeFamilies (.id _) (fun _ _ _ => rfl) (fun _ _ _ _ => rfl) now u "membership_revoked"

theorem oneOwner_suspendMember [Formats] (ctx : RequestCtx) (targetUser : String) :
    OneOwner (Workspace.suspendMember ctx targetUser) := by
  unfold Workspace.suspendMember
  refine .after (Prog.writes_ofExcept _) fun _ => .after (Prog.writes_ofExcept _) fun target => ?_
  refine .after (writes_ensureNotLastOwner target) fun _ => .before ?_ fun _ => ?_
  · refine Prog.changesOnce_execute (.id _) fun v _ => changesOneOwner_modify target (.inr fun m _ h => ?_)
    cases h.2.1
  · exact .bind (writes_revokeOrgUserSessions ctx.now target) fun _ =>
      .bind (writes_insertEvent _) fun _ => trivial

theorem oneOwner_revokeMember [Formats] (ctx : RequestCtx) (targetUser : String) :
    OneOwner (Workspace.revokeMember ctx targetUser) := by
  unfold Workspace.revokeMember
  refine .after (Prog.writes_ofExcept _) fun _ => .after (Prog.writes_ofExcept _) fun target => ?_
  refine .after (writes_ensureNotLastOwner target) fun _ => .before ?_ fun _ => ?_
  · refine Prog.changesOnce_execute (.id _) fun v _ => changesOneOwner_modify target (.inr fun m _ h => ?_)
    cases h.2.1
  · exact .bind (writes_revokeOrgUserSessions ctx.now target) fun _ =>
      .bind (writes_insertEvent _) fun _ => .bind (writes_insertEvent _) fun _ => trivial

theorem activeOwner_role (role : Role) {f : MembershipRow → MembershipRow}
    (hrole : ∀ m, (f m).role = role) (hstatus : ∀ m, m.ActiveOwner → (f m).status = .active)
    (hrevoked : ∀ m, m.ActiveOwner → (f m).revokedAt = none) :
    (∀ m, m.ActiveOwner → (f m).ActiveOwner) ∨ ∀ m, m.ActiveOwner → ¬(f m).ActiveOwner := by
  by_cases h : role = .owner
  · exact .inl fun m hm => ⟨(hrole m).trans h, hstatus m hm, hrevoked m hm⟩
  · exact .inr fun m _ hf => h ((hrole m).symm.trans hf.1)

theorem oneOwner_changeMemberRole [Formats] (ctx : RequestCtx) (targetUser roleRef : String) :
    OneOwner (Workspace.changeMemberRole ctx targetUser roleRef) := by
  unfold Workspace.changeMemberRole
  refine .after (Prog.writes_ofExcept _) fun _ => .after (Prog.writes_ofExcept _) fun target => ?_
  have hresolve : (resolveRole roleRef).Writes KeepsMemberships :=
    (resolveRole_writes roleRef).mono fun f hf => by rw [hf]; exact .id _
  refine .after hresolve fun r => ?_
  refine .after (Prog.writes_query (.id _) _) fun current => .after (writes_okOr _ _) fun m => ?_
  dsimp only
  have hrest : ∀ u : Unit, OneOwner (do
      let role ← .ofExcept (roleColumn r.2.1)
      .execute (fun _ => [.membership target]) (fun _ => .ok ()) fun _ s =>
        s.setMemberships (·.modify target fun m =>
          { m with role, roleId := some r.1, policyVersion := m.policyVersion + 1 })
      insertEvent (userEvent "role.revoked" target [("role", m.role.asStr)])
      insertEvent (userEvent "role.assigned" target [("role", r.2.1)])
      return "role updated" : Tx String) := by
    intro _
    refine .after (Prog.writes_ofExcept _) fun role => .before ?_ fun _ => ?_
    · refine Prog.changesOnce_execute (.id _) fun v _ => changesOneOwner_modify target ?_
      exact activeOwner_role role (fun _ => rfl) (fun _ h => h.2.1) fun _ h => h.2.2
    · exact .bind (writes_insertEvent _) fun _ => .bind (writes_insertEvent _) fun _ => trivial
  split_ifs
  · exact .after (writes_ensureNotLastOwner target) hrest
  · exact hrest ()

theorem oneOwner_acceptInvitation [Formats] [TokenHash] (ctx : RequestCtx) (body : AcceptInviteRequest) :
    OneOwner (Workspace.acceptInvitation ctx body) := by
  have huser : ∀ email, (invitedUser ctx email body).Writes KeepsMemberships := by
    intro email
    unfold invitedUser
    refine .bind (Prog.writes_query (.id _) _) fun existing => ?_
    split
    · trivial
    · refine .bind (writes_okOr _ _) fun password => .bind (Prog.writes_ofExcept _) fun _ => ?_
      exact .bind (Prog.writes_execute (.id _) fun _ _ _ => rfl) fun _ => trivial
  unfold Workspace.acceptInvitation
  refine .after (Prog.writes_query (.id _) _) fun found => .after (writes_okOr _ _) fun inv => ?_
  refine .after Prog.writes_require fun _ => .after Prog.writes_require fun _ => ?_
  refine .after (huser inv.emailNormalized) fun userId => .before ?_ fun _ => trivial
  unfold joinOrganization
  refine .after (Prog.writes_query (.id _) _) fun role => .after (Prog.writes_ofExcept _) fun role => ?_
  refine .before ?_ fun _ => ?_
  · refine Prog.changesOnce_execute (.id _) fun v _ => changesOneOwner_upsert userId ?_ _
    exact activeOwner_role role (fun _ => rfl) (fun _ _ => rfl) fun _ _ => rfl
  · refine .bind (Prog.writes_execute (.id _) fun _ _ _ => rfl) fun _ => ?_
    exact .bind (writes_insertEvent _) fun _ => writes_insertEvent _

theorem oneOwner_createUser [Formats] [Casing] (ctx : RequestCtx) (body : ScimUserBody) :
    OneOwner (Workspace.createUser ctx body) := by
  have hokOr : ∀ {α : Type} (x : Option α) (e : ScimError),
      (Prog.okOr x e : ScimTx α).Writes KeepsMemberships := by
    intro α x e
    cases x <;> trivial
  have huser : ∀ email display, (provisionedUser ctx email display).Writes KeepsMemberships := by
    intro email display
    unfold provisionedUser
    refine .bind (Prog.writes_execute (.id _) fun v _ s => ?_) fun _ => ?_
    · split_ifs <;> rfl
    · exact .bind (Prog.writes_query (.id _) _) fun _ => trivial
  unfold Workspace.createUser
  refine .after (hokOr _ _) fun email => .after (huser _ _) fun userId => ?_
  refine .after (Prog.writes_query (.id _) _) fun roleId => .before ?_ fun _ => ?_
  · refine Prog.changesOnce_execute (.id _) fun v _ => changesOneOwner_upsert userId ?_ _
    exact .inl fun m h => ⟨h.1, rfl, rfl⟩
  · exact .bind (Prog.writes_execute (.id _) fun _ _ _ => rfl) fun _ => trivial

theorem oneOwner_patchUserInner (ctx : RequestCtx) (id : String) (bodyActive : Option Bool) :
    OneOwner (patchUserInner ctx id bodyActive) := by
  have hget : (getUser id).Writes KeepsMemberships := by
    unfold getUser
    refine .bind (Prog.writes_query (.id _) _) fun row => ?_
    split
    · trivial
    · refine .bind (Prog.writes_query (.id _) _) fun info => ?_
      split <;> trivial
  have hreprovision : ∀ u, OneOwner (reprovision u) := fun u =>
    Prog.changesOnce_execute (.id _) fun v _ =>
      changesOneOwner_modify u (.inl fun m h => ⟨h.1, rfl, rfl⟩)
  have hdeprovision : ∀ u, OneOwner (deprovision ctx.now u) := by
    intro u
    unfold deprovision
    refine .before (Prog.changesOnce_execute (.id _) fun v _ => ?_) fun _ => ?_
    · cases (v.liveMembership u).isSome with
      | true => exact changesOneOwner_modify u (.inr fun m _ h => by cases h.2.1)
      | false => exact changesOneOwner_of_keeps (.id _)
    · exact Prog.writes_updateRows (.id _) fun _ _ => rfl
  unfold patchUserInner
  refine .after (Prog.writes_query (.id _) _) fun row => ?_
  split
  · trivial
  · refine .after (Prog.writes_execute (.id _) fun _ _ _ => rfl) fun _ => ?_
    split_ifs
    · exact .before (hreprovision _) fun _ => hget
    · exact .before (hdeprovision _) fun _ => hget

theorem MemberOp.oneOwner [Formats] [Casing] [TokenHash] (op : MemberOp) : OneOwner op.body := by
  cases op with
  | scim op =>
    cases op with
    | createUser ctx body => exact oneOwner_settle _ (oneOwner_createUser ctx body)
    | replaceUser ctx id body => exact oneOwner_settle _ (oneOwner_patchUserInner ctx id _)
    | patchUser ctx id body => exact oneOwner_settle _ (oneOwner_patchUserInner ctx id _)
    | deleteUser ctx id =>
      exact oneOwner_settle _ (.before (oneOwner_patchUserInner ctx id _) fun _ => trivial)
    | suspendMember ctx targetUser => exact oneOwner_settle _ (oneOwner_suspendMember ctx targetUser)
    | revokeMember ctx targetUser => exact oneOwner_settle _ (oneOwner_revokeMember ctx targetUser)
  | changeMemberRole ctx targetUser roleRef =>
    exact oneOwner_settle _ (oneOwner_changeMemberRole ctx targetUser roleRef)
  | acceptInvitation ctx body => exact oneOwner_settle _ (oneOwner_acceptInvitation ctx body)

section
variable [Formats] [Casing] [TokenHash] {ι : Type} [DecidableEq ι] {ops : ι → MemberOp} {db : Store}

theorem changesOneOwner_pend {c : Config ι Store Lock (AppError ⊕ ScimError) Unit}
    (h : Reachable (fun i => (ops i).body) db c) {i : ι}
    {t : Thread Store Lock (AppError ⊕ ScimError) Unit} (ht : c.threads i = .running t) :
    ChangesOneOwner t.pend := by
  rcases h.changesOnce (K := fun _ => KeepsMemberships) (U := fun _ => ChangesOneOwner)
    (fun _ => .id _) (fun _ f g => .comp) (fun _ => ChangesOneOwner.left) (fun _ => ChangesOneOwner.right)
    (fun i => (ops i).oneOwner) i t ht with hkeep | hchange
  · exact changesOneOwner_of_keeps hkeep.1
  · exact hchange.1

end

def ownerRow (u : Uuid) : MembershipRow :=
  ⟨100 + u, s!"mbr_{u}", .owner, none, none, none, 1, .active, none, none⟩

/-- An organization of these owners. -/
def Store.withOwners (us : List Uuid) : Store :=
  { Store.empty with memberships := us.foldl (fun t u => t.insert u (ownerRow u)) .empty }

def suspendingOwner [Formats] (u : Uuid) : MemberOp :=
  .scim (.suspendMember (.nth 0) (publicIdStr .user u))

def Store.ownerIs (s : Store) (u : Uuid) : Bool := (s.memberships.find? u).any (·.ActiveOwner)

theorem ownerIs_iff {s : Store} {u : Uuid} : s.ownerIs u = true ↔ s.OwnedBy u := by
  simp [Store.ownerIs, Store.OwnedBy, Option.any_eq_true]

def invitedOwner [TokenHash] : Store :=
  { Store.withOwners [1] with
    users := Table.empty.insert 1 ⟨"usr_1", "a@b.c", "A"⟩
    roles := Table.empty.insert 9 ⟨"rol_9", some "member"⟩
    invitations := Table.empty.insert (TokenHash.hashToken "inv") ⟨"a@b.c", 9, .pending, 10, none⟩ }

example :
    letI := Finance.canonicalFormats
    letI := canonicalCasing
    letI := canonicalTokenHash
    ((MemberOp.acceptInvitation (.nth 0) ⟨"inv", none, none⟩).body.run invitedOwner).toOption.any
      (fun r => !r.2.ownerIs 1) = true := by
  decide +kernel

end Noxara.Workspace
