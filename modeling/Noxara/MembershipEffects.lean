import Noxara.Memberships

/-! What the accepted requests on memberships do to the store. -/
namespace Noxara.Workspace

open Authz Transaction
open Finance (Uuid Timestamp Formats AppError)

def Store.members (s : Store) : Store := { s with
  sessions := .empty
  refreshTokens := .empty
  outbox := [] }

theorem memberships_of_members {s t : Store} (h : t.members = s.members) :
    t.memberships = s.memberships := by
  have hm := congrArg Store.memberships h
  exact hm

theorem scimIdentities_of_members {s t : Store} (h : t.members = s.members) :
    t.scimIdentities = s.scimIdentities := by
  have hi := congrArg Store.scimIdentities h
  exact hi

theorem members_revokeOrgUserSessions {s t : Store} {now : Timestamp} {userId : Uuid} {n : Nat}
    (h : (revokeOrgUserSessions now userId : Tx Nat).run s = .ok (n, t)) : t.members = s.members := by
  have hw := writes_revokeFamilies (ε := AppError) (W := Prog.Keeps Store.members) (.id _)
    (fun _ _ _ => rfl) (fun _ _ _ _ => rfl) now userId "membership_revoked"
  obtain ⟨f, hf, ht⟩ := hw.run_ok (.id _) (fun _ _ => .comp) h
  change t = f s at ht
  rw [ht, hf]

theorem run_insertEvent (e : Event) (s : Store) :
    (insertEvent e).run s = .ok ((), { s with outbox := s.outbox ++ [e] }) := rfl

theorem ensureNotLastOwner_ok {target : Uuid} {s t : Store} {u : Unit}
    (h : (ensureNotLastOwner target).run s = .ok (u, t)) : t = s := by
  simp only [ensureNotLastOwner, Prog.run_query_bind] at h
  cases hm : s.liveMembership target with
  | none =>
    rw [hm] at h
    cases h
    rfl
  | some m =>
    simp only [hm] at h
    split_ifs at h
    · cases h
      rfl
    · simp only [Prog.run_query_bind, Prog.run_require_ok, Prod.mk.injEq] at h
      exact h.2.2

section
variable [Formats]

omit [Formats] in
theorem writes_okOr {W : (Store → Store) → Prop} {α : Type} (x : Option α) (e : AppError) :
    (Prog.okOr x e : Tx α).Writes W := by
  cases x <;> trivial

theorem resolveRole_writes (roleRef : String) : (resolveRole roleRef).Writes (· = id) := by
  have hkey : (roleByKey roleRef).Writes (· = id) := by
    unfold roleByKey
    split_ifs
    · exact .bind (Prog.writes_query (W := (· = id)) rfl _) fun row => .bind (writes_okOr _ _) fun _ => trivial
    · trivial
  unfold resolveRole
  cases Finance.PublicId.fromStr roleRef with
  | ok pubId =>
    dsimp only
    split_ifs with hkind
    · exact .bind (Prog.writes_query (W := (· = id)) rfl _) fun row => .bind (writes_okOr _ _) fun _ => trivial
    · exact hkey
  | error e => exact hkey

theorem resolveRole_ok {roleRef : String} {s t : Store} {r : Uuid × String × String}
    (h : (resolveRole roleRef).run s = .ok (r, t)) : t = s := by
  obtain ⟨f, rfl, ht⟩ := (resolveRole_writes roleRef).run_ok (W := (· = id)) rfl
    (by rintro f g rfl rfl; rfl) h
  exact ht

def withRole (role : Role) (roleId : Uuid) (m : MembershipRow) : MembershipRow :=
  { m with role, roleId := some roleId, policyVersion := m.policyVersion + 1 }

def suspended (now : Timestamp) (m : MembershipRow) : MembershipRow :=
  { m with status := .suspended, suspendedAt := some now, policyVersion := m.policyVersion + 1 }

def revoked (now : Timestamp) (m : MembershipRow) : MembershipRow :=
  { m with status := .revoked, revokedAt := some now, policyVersion := m.policyVersion + 1 }

theorem changeMemberRole_ok {ctx : RequestCtx} {targetUser roleRef a : String} {s t : Store}
    (h : (changeMemberRole ctx targetUser roleRef).run s = .ok (a, t)) :
    ∃ target roleId key pub m role events, parseUserRef targetUser = .ok target ∧
      (resolveRole roleRef).run s = .ok ((roleId, key, pub), s) ∧
      s.liveMembership target = some m ∧ roleColumn key = .ok role ∧
      t = { s.setMemberships (·.modify target (withRole role roleId)) with outbox := events } := by
  simp only [changeMemberRole, Prog.run_ofExcept_bind_ok] at h
  obtain ⟨_, _, target, htarget, h⟩ := h
  obtain ⟨⟨roleId, key, pub⟩, s₁, hr, hbody⟩ := Prog.run_bind_ok.mp h
  clear h
  obtain rfl := resolveRole_ok hr
  simp only [Prog.run_query_bind, Prog.run_okOr_bind_ok] at hbody
  obtain ⟨m, hm, hbody⟩ := hbody
  refine ⟨target, roleId, key, pub, m, ?_⟩
  have hrest : ∀ v, (do
      let role ← .ofExcept (roleColumn key)
      .execute (fun _ => [.membership target]) (fun _ => .ok ()) fun _ s =>
        s.setMemberships (·.modify target fun m =>
          { m with role, roleId := some roleId, policyVersion := m.policyVersion + 1 })
      insertEvent (userEvent "role.revoked" target [("role", m.role.asStr)])
      insertEvent (userEvent "role.assigned" target [("role", key)])
      return "role updated" : Tx String).run v = .ok (a, t) →
      ∃ role events, roleColumn key = .ok role ∧
        t = { v.setMemberships (·.modify target (withRole role roleId)) with outbox := events } := by
    intro v hv
    simp only [Prog.run_ofExcept_bind_ok, Prog.run_execute_bind_ok] at hv
    obtain ⟨role, hrole, -, hv⟩ := hv
    simp only [Prog.run_bind_ok, run_insertEvent] at hv
    obtain ⟨_, _, h₁, _, _, h₂, h₃⟩ := hv
    cases h₁
    cases h₂
    cases h₃
    exact ⟨role, _, hrole, rfl⟩
  split_ifs at hbody with hdemote
  · obtain ⟨_, s₂, hens, hafter⟩ := Prog.run_bind_ok.mp hbody
    clear hbody
    obtain rfl := ensureNotLastOwner_ok hens
    obtain ⟨role, events, hrole, ht⟩ := hrest _ hafter
    exact ⟨role, events, htarget, hr, hm, hrole, ht⟩
  · obtain ⟨role, events, hrole, ht⟩ := hrest _ hbody
    exact ⟨role, events, htarget, hr, hm, hrole, ht⟩

theorem suspendMember_ok {ctx : RequestCtx} {targetUser a : String} {s t : Store}
    (h : (suspendMember ctx targetUser).run s = .ok (a, t)) :
    ∃ target m n u events, parseUserRef targetUser = .ok target ∧ s.liveMembership target = some m ∧
      m.status = .active ∧
      (revokeOrgUserSessions ctx.now target : Tx Nat).run
        (s.setMemberships (·.modify target (suspended ctx.now))) = .ok (n, u) ∧
      t = { u with outbox := events } := by
  simp only [suspendMember, Prog.run_ofExcept_bind_ok] at h
  obtain ⟨_, _, target, htarget, h⟩ := h
  obtain ⟨_, s₁, hens, hbody⟩ := Prog.run_bind_ok.mp h
  clear h
  obtain rfl := ensureNotLastOwner_ok hens
  simp only [Prog.run_execute_bind_ok] at hbody
  obtain ⟨hcheck, hbody⟩ := hbody
  obtain ⟨n, u, hrev, hbody⟩ := Prog.run_bind_ok.mp hbody
  simp only [Prog.run_bind_ok, run_insertEvent] at hbody
  obtain ⟨_, _, h₁, h₂⟩ := hbody
  cases h₁
  cases h₂
  have hactive : ((s₁.liveMembership target).filter (·.status = .active)).isSome := by
    by_contra hno
    rw [if_neg hno] at hcheck
    cases hcheck
  obtain ⟨m, hm⟩ := Option.isSome_iff_exists.mp hactive
  obtain ⟨hm, hstatus⟩ := Option.filter_eq_some_iff.mp hm
  exact ⟨target, m, n, u, _, htarget, hm, by simpa using hstatus, hrev, rfl⟩

theorem revokeMember_ok {ctx : RequestCtx} {targetUser a : String} {s t : Store}
    (h : (revokeMember ctx targetUser).run s = .ok (a, t)) :
    ∃ target m n u events, parseUserRef targetUser = .ok target ∧ s.liveMembership target = some m ∧
      (revokeOrgUserSessions ctx.now target : Tx Nat).run
        (s.setMemberships (·.modify target (revoked ctx.now))) = .ok (n, u) ∧
      t = { u with outbox := events } := by
  simp only [revokeMember, Prog.run_ofExcept_bind_ok] at h
  obtain ⟨_, _, target, htarget, h⟩ := h
  obtain ⟨_, s₁, hens, hbody⟩ := Prog.run_bind_ok.mp h
  clear h
  obtain rfl := ensureNotLastOwner_ok hens
  simp only [Prog.run_execute_bind_ok] at hbody
  obtain ⟨hcheck, hbody⟩ := hbody
  obtain ⟨n, u, hrev, hbody⟩ := Prog.run_bind_ok.mp hbody
  simp only [Prog.run_bind_ok, run_insertEvent] at hbody
  obtain ⟨_, _, h₁, _, _, h₂, h₃⟩ := hbody
  cases h₁
  cases h₂
  cases h₃
  have hlive : (s₁.liveMembership target).isSome := by
    by_contra hno
    rw [if_neg hno] at hcheck
    cases hcheck
  obtain ⟨m, hm⟩ := Option.isSome_iff_exists.mp hlive
  exact ⟨target, m, n, u, _, htarget, hm, hrev, rfl⟩

end

end Noxara.Workspace
