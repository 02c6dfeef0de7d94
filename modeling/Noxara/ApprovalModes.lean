import Noxara.ApprovalRights

/-! What the mode of an approval comes to. It is kept and shown, and nothing reads it: the first
decision on the current step ends the approval, and the steps before that one were escalated. -/
namespace Noxara.Approvals

open Transaction
open Finance (Uuid Formats parsePublicId canonicalFormats)

/-- The orders are the numbers from 1 to some `n`. -/
def NumberedFromOne (orders : List Int) : Prop :=
  ∃ n : Int, 1 ≤ n ∧ ∀ o, o ∈ orders ↔ 1 ≤ o ∧ o ≤ n

theorem NumberedFromOne.covers {orders : List Int} (h : NumberedFromOne orders) : CoversFromOne orders := by
  obtain ⟨n, hn, hmem⟩ := h
  refine ⟨(hmem 1).mpr ⟨le_refl 1, hn⟩, fun o ho i h1 hi => (hmem i).mpr ⟨h1, ?_⟩⟩
  have := ((hmem o).mp ho).2
  omega

theorem NumberedFromOne.pos {orders : List Int} (h : NumberedFromOne orders) {o : Int} (ho : o ∈ orders) :
    1 ≤ o := by
  obtain ⟨n, _, hmem⟩ := h
  exact ((hmem o).mp ho).1

def Db.StepApproved (db : Db) (approvalId : Uuid) (row : ApprovalRow) : Prop :=
  (∃ x, db.steps.find? (approvalId, row.currentStep) = some x ∧ x.status = .approved) ∧
    ∃ d ∈ db.decisions, d.approvalId = approvalId ∧ d.stepOrder = row.currentStep ∧
      d.decision = .approve ∧ row.decidedBy = some d.actorUserId

def Db.EarlierEscalated (db : Db) (approvalId : Uuid) (row : ApprovalRow) : Prop :=
  ∀ o x, db.steps.find? (approvalId, o) = some x → o < row.currentStep → x.status = .escalated

structure Db.Progressed (db : Db) (approvalId : Uuid) : Prop where
  aligned : db.Aligned approvalId
  earlier : ∀ row, db.approvals.find? approvalId = some row → NumberedFromOne row.orders →
    db.EarlierEscalated approvalId row
  approved : ∀ row, db.approvals.find? approvalId = some row → NumberedFromOne row.orders →
    row.status = .approved → db.StepApproved approvalId row

theorem Created.progressed {approvalId : Uuid} {matched : MatchedPolicy} {row : ApprovalRow} {s t : Db}
    (h : Created approvalId matched row s t) (ht : t.Aligned approvalId) : t.Progressed approvalId := by
  refine ⟨ht, fun row' hrow' hnum o x hx ho => ?_, fun row' hrow' _ happroved => ?_⟩
  · cases h.row_eq.symm.trans hrow'
    have hmem : o ∈ row.orders := by
      refine (ht.kept.orders row hrow' o).mp ?_
      rw [Db.HasStep, hx]
      rfl
    have := hnum.pos hmem
    rw [h.current] at ho
    omega
  · cases h.row_eq.symm.trans hrow'
    rw [h.status] at happroved
    cases happroved

theorem Decided.progressed {ctx : RequestCtx} {approvalId : Uuid} {body : DecideApprovalRequest}
    {row : ApprovalRow} {s t : Db} (h : Decided ctx approvalId body row s t)
    (hrow : s.approvals.find? approvalId = some row) (hs : s.Progressed approvalId)
    (ht : t.Aligned approvalId) : t.Progressed approvalId := by
  have hnext := h.row_eq hrow
  obtain ⟨_, _, rfl⟩ := h
  refine ⟨ht, fun row' hrow' hnum o x hx ho => ?_, fun row' hrow' hnum happroved => ?_⟩
  · cases hnext.symm.trans hrow'
    have ho : o < row.currentStep := ho
    rw [Table.find?_modify_ne _ _ (by rintro he; have := (Prod.mk.inj he).2; omega)] at hx
    exact hs.earlier row hrow hnum o x hx ho
  · cases hnext.symm.trans hrow'
    have happrove : body.approve = true := by
      by_contra hne
      rw [Bool.not_eq_true] at hne
      simp [ApprovalRow.decide, DecideApprovalRequest.newStatus, hne] at happroved
    obtain ⟨x, hx⟩ := (hs.aligned.hasStep hrow hnum.covers).exists
    refine ⟨⟨x.decide ctx body, ?_, ?_⟩, decisionRow ctx approvalId row.currentStep body, ?_, rfl, rfl, ?_, rfl⟩
    · change (s.steps.modify (approvalId, row.currentStep) _).find? (approvalId, row.currentStep) = _
      rw [Table.find?_modify_self, hx]
      rfl
    · simp [StepRow.decide, DecideApprovalRequest.stepStatus, happrove]
    · exact List.mem_append_right _ (List.mem_singleton_self _)
    · simp [decisionRow, DecideApprovalRequest.decision, happrove]

theorem Db.escalated_progressed {ctx : RequestCtx} {approvalId : Uuid} {row : ApprovalRow} {s : Db}
    (hrow : s.approvals.find? approvalId = some row) (hpending : row.status = .pending)
    (hs : s.Progressed approvalId) (ht : (s.escalated ctx approvalId row).Aligned approvalId) :
    (s.escalated ctx approvalId row).Progressed approvalId := by
  obtain ⟨next, hnext, hstatus, hsnap, hcur⟩ := Db.escalated_row ctx hrow hpending
  refine ⟨ht, fun row' hrow' hnum o x hx ho => ?_, fun row' hrow' _ happroved => ?_⟩
  · cases hnext.symm.trans hrow'
    have hnum : NumberedFromOne row.orders := by rwa [ApprovalRow.orders, ← hsnap]
    rw [hcur, Db.nextStep] at ho
    by_cases hlt : o < row.currentStep
    · rw [Db.escalated_earlier hlt] at hx
      exact hs.earlier row hrow hnum o x hx hlt
    · -- The step that the escalation left behind.
      split_ifs at ho with hmax
      · obtain rfl : o = row.currentStep := by omega
        obtain ⟨y, hy⟩ := (hs.aligned.hasStep hrow hnum.covers).exists
        cases (Db.escalated_current hmax hy).symm.trans hx
        rfl
      · exact absurd ho hlt
  · cases hnext.symm.trans hrow'
    rw [hstatus] at happroved
    cases happroved

theorem EffectOn.progressed {approvalId : Uuid} {s t : Db} (h : EffectOn approvalId s t)
    (hs : s.Progressed approvalId) : t.Progressed approvalId := by
  have ht := h.aligned hs.aligned
  cases h with
  | frame hr hst hd =>
    obtain ⟨more, hd⟩ := hd
    refine ⟨ht, fun row hrow hnum o x hx ho => ?_, fun row hrow hnum happroved => ?_⟩
    · exact hs.earlier row (hr ▸ hrow) hnum o x (hst o ▸ hx) ho
    · obtain ⟨⟨x, hx, hxs⟩, d, hmem, hrest⟩ := hs.approved row (hr ▸ hrow) hnum happroved
      refine ⟨⟨x, (hst _).trans hx, hxs⟩, d, ?_, hrest⟩
      rw [hd]
      exact List.mem_append_left _ hmem
  | created hc => exact hc.progressed ht
  | decided hrow _ hd => exact hd.progressed hrow hs ht
  | escalated hrow hp he =>
    subst he
    exact Db.escalated_progressed hrow hp hs ht

variable [Formats]

theorem one_decision_suffices {ctx : RequestCtx} {id : String} {body : DecideApprovalRequest}
    {approvalId : Uuid} {row : ApprovalRow} {s t : Db} {r : Response}
    (h : (decideApproval ctx id body).run s = .ok (r, t))
    (hid : parsePublicId .approval id = .ok approvalId)
    (hrow : s.approvals.find? approvalId = some row) (hpending : row.status = .pending)
    (hfresh : ∀ k, ctx.idempotencyKey = some k → s.idempotency.find? (decideScope id, k) = none) :
    t.statusOf approvalId = some body.newStatus := by
  obtain ⟨a, ha, ⟨_, k, _, hk, hstored⟩ | ⟨found, hfound, ⟨hne, _⟩ | ⟨_, hd⟩⟩⟩ :=
    decideApproval_ok h
  · rw [hfresh k hk] at hstored
    cases hstored
  · cases hid.symm.trans ha
    cases hrow.symm.trans hfound
    exact absurd hpending hne
  · cases hid.symm.trans ha
    cases hrow.symm.trans hfound
    rw [Db.statusOf, hd.row_eq hrow]
    rfl

/-- In every run of requests from a store without approvals: an approval whose steps are numbered
from 1 on is approved only where a decision recorded for its current step approved that step and
the earlier ones were escalated. And whatever the mode, a decision on a pending approval that is
not answered from the store approves it, or rejects it. -/
theorem approval_modes {s t : Db} {steps : List (Db × Request)}
    (hnone : ∀ a, s.approvals.find? a = none) (hsteps : ∀ k, s.steps.find? k = none)
    (h : Runs Request.run s steps t) :
    (∀ approvalId row, t.approvals.find? approvalId = some row → NumberedFromOne row.orders →
      row.status = .approved → t.StepApproved approvalId row ∧ t.EarlierEscalated approvalId row) ∧
    ∀ before ctx id body approvalId row r after, parsePublicId .approval id = .ok approvalId →
      before.approvals.find? approvalId = some row → row.status = .pending →
      (∀ k, ctx.idempotencyKey = some k → before.idempotency.find? (decideScope id, k) = none) →
      (decideApproval ctx id body).run before = .ok (r, after) →
      after.statusOf approvalId = some (if body.approve then .approved else .rejected) := by
  constructor
  · intro approvalId row hrow hnum happroved
    have hprogress : t.Progressed approvalId := by
      refine h.invariant (C := fun _ => True) (I := fun db => db.Progressed approvalId) ?_
        (fun _ _ => trivial) fun v q a u _ hv hr => ((Request.effect hr).on approvalId).progressed hv
      have hno (row : ApprovalRow) : ¬s.approvals.find? approvalId = some row := by
        rw [hnone]
        nofun
      refine ⟨⟨⟨fun _ o ho => ?_, fun row hrow => absurd hrow (hno row)⟩,
        fun row hrow => absurd hrow (hno row)⟩, fun row hrow => absurd hrow (hno row),
        fun row hrow => absurd hrow (hno row)⟩
      obtain ⟨y, hy⟩ := ho.exists
      rw [hsteps] at hy
      cases hy
    exact ⟨hprogress.approved row hrow hnum happroved, hprogress.earlier row hrow hnum⟩
  · intro before ctx id body approvalId row r after hid hrow hpending hfresh hrun
    exact one_decision_suffices hrun hid hrow hpending hfresh

omit [Formats] in
theorem numberedFromOne_two : NumberedFromOne [1, 2] := by
  refine ⟨2, by omega, fun o => ?_⟩
  simp only [List.mem_cons, List.not_mem_nil, or_false]
  omega

omit [Formats] in
/-- Two steps, one after the other, the first of which times out. -/
theorem approval_modes_escalated :
    letI := canonicalFormats
    ∃ steps t row, Runs Request.run Db.empty steps t ∧ t.approvals.find? 10 = some row ∧
      row.status = .approved ∧ t.StepApproved 10 row ∧ t.EarlierEscalated 10 row := by
  let := canonicalFormats
  obtain ⟨steps, t, h, hP⟩ := Runs.of_play Request.run
    (routedBy .sequential [.by 1 1, .by 2 2] ++
      [.escalate (.of 9) routedId, .decide (.of 2) routedId { approve := true }]) Db.empty
    (fun _ t => ((t.approvals.find? 10).any fun row => row.status = .approved ∧ row.orders = [1, 2]) = true)
    (by decide +kernel)
  obtain ⟨row, hrow, hst⟩ := (Option.any_eq_true _ _).mp (of_decide_eq_true hP)
  obtain ⟨happroved, horders⟩ := of_decide_eq_true hst
  exact ⟨steps, t, row, h, hrow, happroved, (approval_modes (fun _ => rfl) (fun _ => rfl) h).1 10 row hrow
    (horders ▸ numberedFromOne_two) happroved⟩

omit [Formats] in
/-- Two steps, one after the other: the first approval is the last. -/
theorem sequential_approved_at_first_step :
    letI := canonicalFormats
    ∃ steps t row x, Runs Request.run Db.empty steps t ∧ t.approvals.find? 10 = some row ∧
      row.mode = .sequential ∧ row.orders = [1, 2] ∧ row.status = .approved ∧
      t.steps.find? (10, 2) = some x ∧ x.status = .pending ∧ x.escalatedAt = none ∧
      ∀ d ∈ t.decisions, d.stepOrder ≠ 2 := by
  let := canonicalFormats
  obtain ⟨steps, t, h, hP⟩ := Runs.of_play Request.run
    (routedBy .sequential [.by 1 1, .by 2 2] ++ [.decide (.of 1) routedId { approve := true }]) Db.empty
    (fun _ t =>
      ((t.approvals.find? 10).any fun row =>
        row.mode = .sequential ∧ row.orders = [1, 2] ∧ row.status = .approved) = true ∧
      ((t.steps.find? (10, 2)).any fun x => x.status = .pending ∧ x.escalatedAt = none) = true ∧
      ∀ d ∈ t.decisions, d.stepOrder ≠ 2)
    (by decide +kernel)
  obtain ⟨hrow, hstep, hdecisions⟩ := of_decide_eq_true hP
  obtain ⟨row, hfind, hrow⟩ := (Option.any_eq_true _ _).mp hrow
  obtain ⟨hmode, horders, happroved⟩ := of_decide_eq_true hrow
  obtain ⟨x, hx, hstep⟩ := (Option.any_eq_true _ _).mp hstep
  obtain ⟨hpending, hnot⟩ := of_decide_eq_true hstep
  exact ⟨steps, t, row, x, h, hfind, hmode, horders, happroved, hx, hpending, hnot, hdecisions⟩

end Noxara.Approvals
