import Noxara.ApprovalSteps

/-! Who decides. An approval starts at step 1 and moves on by one, so its current step is one of
its steps where the orders its policy gives them leave no gap from 1 on. Elsewhere the current
step may not exist, and a step that does not exist is one that anybody may decide. -/
namespace Noxara.Approvals

open Transaction
open Finance (Uuid Formats canonicalFormats)

/-- The orders hold 1, and with an order every one from 1 up to it. -/
def CoversFromOne (orders : List Int) : Prop :=
  1 ∈ orders ∧ ∀ o ∈ orders, ∀ i, 1 ≤ i → i ≤ o → i ∈ orders

/-- The current step lies between the first and the last, where the orders leave no gap. -/
structure Db.Aligned (db : Db) (approvalId : Uuid) : Prop where
  kept : db.StepsKept approvalId
  current : ∀ row, db.approvals.find? approvalId = some row → CoversFromOne row.orders →
    1 ≤ row.currentStep ∧ row.currentStep ≤ db.maxStep approvalId

theorem Db.Aligned.hasStep {db : Db} {approvalId : Uuid} {row : ApprovalRow} (h : db.Aligned approvalId)
    (hrow : db.approvals.find? approvalId = some row) (hc : CoversFromOne row.orders) :
    db.HasStep approvalId row.currentStep := by
  have horders := h.kept.orders row hrow
  obtain ⟨h1, hmax⟩ := h.current row hrow hc
  have hlast := (maxStep_spec ((horders 1).mpr hc.1)).1
  exact (horders _).mpr (hc.2 _ ((horders _).mp hlast) _ h1 hmax)

theorem EffectOn.aligned {approvalId : Uuid} {s t : Db} (h : EffectOn approvalId s t)
    (hs : s.Aligned approvalId) : t.Aligned approvalId := by
  have hkept := h.stepsKept hs.kept
  refine ⟨hkept, fun row' hrow' hcovers => ?_⟩
  cases h with
  | frame hr hst _ =>
    have hmax : t.maxStep approvalId = s.maxStep approvalId := by
      refine Db.maxStep_congr fun o => ?_
      rw [Db.HasStep, Db.HasStep, hst]
    rw [hmax]
    exact hs.current row' (hr ▸ hrow') hcovers
  | @created _ row hc =>
    cases hc.row_eq.symm.trans hrow'
    have hone : t.HasStep approvalId 1 := (hkept.orders row' hrow' 1).mpr hcovers.1
    rw [hc.current]
    exact ⟨le_refl _, (Db.maxStep_spec hone).2 1 hone⟩
  | @decided ctx body row hrow _ hd =>
    cases (hd.row_eq hrow).symm.trans hrow'
    rw [Db.maxStep_congr hd.hasStep]
    exact hs.current row hrow hcovers
  | @escalated ctx row hrow hp ht =>
    subst ht
    obtain ⟨next, hnext, _, hsnap, hcur⟩ := Db.escalated_row ctx hrow hp
    cases hnext.symm.trans hrow'
    have hbefore := hs.current row hrow (by rwa [ApprovalRow.orders, ← hsnap])
    rw [Db.maxStep_congr Db.escalated_hasStep, hcur, Db.nextStep]
    split_ifs with hlt <;> omega

variable [Formats]

/-- Where the request is a decision that changes the approval's status, the current step exists
and its actor is an assignee, or holds a delegation of one, or there are no assignees. -/
def DecidedByApprover (approvalId : Uuid) (before : Db) (q : Request) : Prop :=
  ∀ ctx id body r after row row', q = .decide ctx id body → q.run.run before = .ok (r, after) →
    before.approvals.find? approvalId = some row → after.approvals.find? approvalId = some row' →
    row'.status ≠ row.status →
    ∃ x, before.steps.find? (approvalId, row.currentStep) = some x ∧
      (before.MayActOn ctx approvalId x ∨ x.assigneeUserIds = [])

theorem decidedByApprover {approvalId : Uuid} {before : Db} (h : before.Aligned approvalId)
    (hcovers : ∀ row, before.approvals.find? approvalId = some row → CoversFromOne row.orders)
    (q : Request) : DecidedByApprover approvalId before q := by
  intro ctx id body r after row row' hq hrun hrow hrow' hne
  subst hq
  obtain ⟨x, hx⟩ := (h.hasStep hrow (hcovers row hrow)).exists
  refine ⟨x, hx, ?_⟩
  obtain ⟨a, _, ⟨rfl, _⟩ | ⟨found, hfound, ⟨_, rfl⟩ | ⟨_, hd⟩⟩⟩ := decideApproval_ok hrun
  · cases hrow.symm.trans hrow'
    exact absurd rfl hne
  · cases hrow.symm.trans hrow'
    exact absurd rfl hne
  · by_cases ha : approvalId = a
    · subst ha
      cases hrow.symm.trans hfound
      rcases hd.1 with ⟨y, hy, hmay⟩ | hnone
      · cases hx.symm.trans hy
        exact .inl hmay
      · right
        simpa [Db.unnestAssignees, hx] using hnone
    · obtain ⟨_, _, rfl⟩ := hd
      rw [Table.find?_modify_ne _ _ ha] at hrow'
      cases hrow.symm.trans hrow'
      exact absurd rfl hne

/-- In every run of requests from a store without approvals, a decision on an approval whose
orders leave no gap from 1 on is made by an approver of its current step. -/
theorem approver_decides {s t : Db} {steps : List (Db × Request)}
    (hnone : ∀ a, s.approvals.find? a = none) (hsteps : ∀ k, s.steps.find? k = none)
    (h : Runs Request.run s steps t) :
    ∀ x ∈ steps, ∀ approvalId,
      (∀ row, x.1.approvals.find? approvalId = some row → CoversFromOne row.orders) →
      DecidedByApprover approvalId x.1 x.2 := by
  intro x hx approvalId hcovers
  refine decidedByApprover ?_ hcovers x.2
  refine h.invariant_before (I := fun db => db.Aligned approvalId) ⟨⟨fun _ o ho => ?_, ?_⟩, ?_⟩
    (fun v q a u hv hr => ((Request.effect hr).on approvalId).aligned hv) x hx
  · obtain ⟨y, hy⟩ := ho.exists
    rw [hsteps] at hy
    cases hy
  · intro row hrow
    rw [hnone] at hrow
    cases hrow
  · intro row hrow
    rw [hnone] at hrow
    cases hrow

omit [Formats] in
theorem coversFromOne_one : CoversFromOne [1] := by
  refine ⟨List.mem_singleton_self 1, fun o ho i h1 hi => ?_⟩
  obtain rfl := List.mem_singleton.mp ho
  exact List.mem_singleton.mpr (by omega)

omit [Formats] in
/-- A policy with one step, whose approver decides. -/
theorem approver_decides_one_step :
    letI := canonicalFormats
    ∃ steps t, Runs Request.run Db.empty steps t ∧ t.statusOf 10 = some .approved ∧
      ∀ x ∈ steps, DecidedByApprover 10 x.1 x.2 := by
  let := canonicalFormats
  obtain ⟨steps, t, h, hP⟩ := Runs.of_play Request.run
    (routedBy .any [.by 1 1] ++ [.decide (.of 1) routedId { approve := true }]) Db.empty
    (fun steps t => t.statusOf 10 = some .approved ∧
      ∀ x ∈ steps, ((x.1.approvals.find? 10).all fun row => row.orders = [1]) = true) (by decide +kernel)
  obtain ⟨happroved, horders⟩ := of_decide_eq_true hP
  refine ⟨steps, t, h, happroved, fun x hx => ?_⟩
  refine approver_decides (fun _ => rfl) (fun _ => rfl) h x hx 10 fun row hrow => ?_
  have horder := horders x hx
  rw [hrow] at horder
  rw [of_decide_eq_true horder]
  exact coversFromOne_one

omit [Formats] in
/-- A policy that numbers its only step 2, and a stranger who approves what it routes. -/
theorem stranger_decides :
    letI := canonicalFormats
    ∃ steps t x, Runs Request.run Db.empty steps t ∧ x ∈ steps ∧ ¬DecidedByApprover 10 x.1 x.2 := by
  let := canonicalFormats
  let q : Request := .decide (.of 7) routedId { approve := true }
  obtain ⟨steps, before, h, hP⟩ := Runs.of_play Request.run (routedBy .any [.by 2 1]) Db.empty
    (fun _ before =>
      ((before.approvals.find? 10).any fun row => row.status = .pending ∧ row.currentStep = 1) = true ∧
      before.steps.find? (10, 1) = none ∧
      ((q.run.run before).toOption.any fun r => r.2.statusOf 10 = some .approved) = true)
    (by decide +kernel)
  obtain ⟨hrow, hstep, hrun⟩ := of_decide_eq_true hP
  obtain ⟨row, hfind, hrow⟩ := (Option.any_eq_true _ _).mp hrow
  obtain ⟨hpending, hcurrent⟩ := of_decide_eq_true hrow
  obtain ⟨r, after, hok, happroved⟩ :=
    Prog.run_of_check (P := fun _ (t : Db) => t.statusOf 10 = some .approved) hrun
  refine ⟨_, after, (before, q), h.step hok, by simp, fun hby => ?_⟩
  obtain ⟨row', hfind', hst'⟩ := Option.map_eq_some_iff.mp (of_decide_eq_true happroved)
  obtain ⟨x, hx, _⟩ := hby _ _ _ _ _ _ _ rfl hok hfind hfind' (by rw [hst', hpending]; decide)
  rw [hcurrent, hstep] at hx
  cases hx

end Noxara.Approvals
