import Noxara.ApprovalRequests
import Noxara.TransactionLocks

/-! Concurrent decisions and escalations of an approval. A decision looks at the status again
under the row lock; an escalation writes what it read before it had the lock, so a decided
approval stays decided where no escalation reaches its row after the decision. -/
namespace Noxara.Approvals

open Transaction
open Finance (Uuid Formats parsePublicId canonicalFormats)

structure Standing where
  status : ApprovalStatus
  decidedBy : Option Uuid
  currentStep : Int
  deriving DecidableEq

def ApprovalRow.standing (a : ApprovalRow) : Standing := ⟨a.status, a.decidedBy, a.currentStep⟩

/-- The recorded decisions that end an approval. -/
def Db.verdicts (db : Db) (approvalId : Uuid) : List DecisionRow :=
  db.decisions.filter fun d => d.approvalId = approvalId ∧ d.decision ≠ .escalate

abbrev Outcome := Option Standing × List DecisionRow

def outcome (approvalId : Uuid) (db : Db) : Outcome :=
  ((db.approvals.find? approvalId).map (·.standing), db.verdicts approvalId)

theorem outcome_modify {approvalId : Uuid} {f : ApprovalRow → ApprovalRow} {g : Standing → Standing}
    (hf : ∀ a, (f a).standing = g a.standing) {s : Db} {o : Outcome} (hs : outcome approvalId s = o) :
    outcome approvalId { s with approvals := s.approvals.modify approvalId f } = (o.1.map g, o.2) := by
  subst hs
  simp [outcome, Table.find?_modify_self, Function.comp_def, hf, Db.verdicts]

/-- Statements that stay away from the approval's row and its verdicts. -/
abbrev KeepsOutcome (approvalId : Uuid) {α : Type} (p : Tx α) : Prop :=
  p.Writes (Prog.Keeps (outcome approvalId))

section Keeps
variable {approvalId : Uuid}

theorem keeps_query {α : Type} (f : Db → α) : KeepsOutcome approvalId (Prog.query f) :=
  Prog.writes_query (Prog.Keeps.id _) f

theorem keeps_updateStep (id : Uuid) (order : Int) (f : StepRow → StepRow) :
    KeepsOutcome approvalId (updateStep id order f) :=
  Prog.writes_execute (Prog.Keeps.id _) fun _ _ _ => rfl

theorem keeps_insertDecision {row : DecisionRow} (h : row.decision = .escalate) :
    KeepsOutcome approvalId (insertDecision row) := by
  refine Prog.writes_execute (Prog.Keeps.id _) fun v _ s => ?_
  simp [outcome, Db.verdicts, List.filter_append, h]

theorem keeps_record (key : Option String) (scope : String) (status : Int) (body : ApprovalDto) :
    KeepsOutcome approvalId (Idempotency.record key scope status body) :=
  AnswerTable.writes_record (Prog.Keeps.id _) (fun _ _ _ _ => rfl) _ _ _

theorem keeps_requireApprover (ctx : RequestCtx) (id : Uuid) (step : Int) :
    KeepsOutcome approvalId (requireApprover ctx id step) := by
  refine Prog.Writes.bind ?_ fun can => ?_
  · refine Prog.Writes.bind (keeps_query _) fun assignees => ?_
    cases assignees with
    | none => trivial
    | some ids =>
      change KeepsOutcome approvalId (if _ then _ else _)
      split_ifs
      · trivial
      · exact keeps_query _
  · split_ifs
    · trivial
    · exact (keeps_query _).bind fun _ => Prog.writes_require

variable [Formats]

theorem keeps_fetchApprovalDto (id : Uuid) (e : Finance.AppError) :
    KeepsOutcome approvalId (fetchApprovalDto id e) :=
  (keeps_query _).bind fun _ => (Prog.writes_ofExcept _).bind fun _ => (keeps_query _).bind fun _ => trivial

theorem keeps_answerApproval (id : Uuid) : KeepsOutcome approvalId (answerApproval id) :=
  (keeps_fetchApprovalDto id _).bind fun _ => trivial

end Keeps

section Updates
variable {approvalId : Uuid} {α : Type} {f : ApprovalRow → ApprovalRow} {h : Standing → Standing}
  {g : Nat → Tx α}

theorem held_updateApproval {G : Outcome → Prop} {st : Standing} {ds : List DecisionRow}
    (hf : ∀ a, (f a).standing = h a.standing)
    (hrest : (g 1).Held (outcome approvalId) G (some (h st), ds)) :
    (updateApproval approvalId (fun _ => true) f >>= g).Held (outcome approvalId) G (some st, ds) := by
  intro v hv
  have hsome : ∃ a, v.approvals.find? approvalId = some a := by
    obtain ⟨a, ha, _⟩ := Option.map_eq_some_iff.mp (Prod.mk.inj hv).1
    exact ⟨a, ha⟩
  obtain ⟨a, ha⟩ := hsome
  refine ⟨(some (h st), ds), fun s hs => ?_, ?_⟩
  · simp only [ha, Option.any_some, if_true]
    exact outcome_modify hf hs
  · simp only [ha, Option.any_some, if_true]
    exact hrest

theorem secured_updateApproval {A : Outcome → Prop} {G : Outcome → Outcome → Prop}
    {cond : ApprovalRow → Bool} {c : Standing → Bool} (hf : ∀ a, (f a).standing = h a.standing)
    (hcond : ∀ a, cond a = c a.standing)
    (hmiss : (g 0).Secured (.approval approvalId) (outcome approvalId) A G)
    (hhit : ∀ st ds, c st = true → A (some st, ds) →
      (g 1).Held (outcome approvalId) (G (some st, ds)) (some (h st), ds)) :
    (updateApproval approvalId cond f >>= g).Secured (.approval approvalId) (outcome approvalId) A G := by
  intro v
  by_cases hc : (v.approvals.find? approvalId).any cond = true
  · obtain ⟨a, ha, hca⟩ := (Option.any_eq_true _ _).mp hc
    have hv : outcome approvalId v = (some a.standing, v.verdicts approvalId) := by
      simp [outcome, ha]
    refine .inr ⟨?_, fun hA => ?_⟩
    · simp only [hc, if_true]
      exact List.mem_singleton_self _
    · rw [hv] at hA ⊢
      refine ⟨(some (h a.standing), v.verdicts approvalId), fun s hs => ?_, ?_⟩
      · simp only [hc, if_true]
        exact outcome_modify hf hs
      · simp only [hc, if_true]
        exact hhit _ _ (by rw [← hcond]; exact hca) hA
  · refine .inl ⟨fun s => ?_, ?_⟩
    · simp only [hc]
      rfl
    · simp only [hc]
      exact hmiss

end Updates

/-- A decision ends an approval that was pending, and is recorded. -/
def Decides (ctx : RequestCtx) (approvalId : Uuid) (body : DecideApprovalRequest)
    (o o' : Outcome) : Prop :=
  ∃ st, o.1 = some st ∧ st.status = .pending ∧
    ∃ stepOrder, o' = (some ⟨body.newStatus, some ctx.actorUserId, st.currentStep⟩,
      o.2 ++ [decisionRow ctx approvalId stepOrder body])

/-- An escalation of an approval that was pending leaves it so. -/
def HandsOn (o o' : Outcome) : Prop :=
  ∃ st step, o.1 = some st ∧ st.status = .pending ∧ o' = (some { st with currentStep := step }, o.2)

def Outcome.Pending (o : Outcome) : Prop := ∃ st, o.1 = some st ∧ st.status = .pending

section Requests
variable [Formats] {approvalId : Uuid}

theorem held_recordDecision {ctx : RequestCtx} {id : String} {stepOrder : Int}
    {body : DecideApprovalRequest} {G : Outcome → Prop} {o : Outcome}
    (hG : G (o.1, o.2 ++ [decisionRow ctx approvalId stepOrder body])) :
    (recordDecision ctx id approvalId stepOrder body).Held (outcome approvalId) G o := by
  have hkind : (decisionRow ctx approvalId stepOrder body).decision ≠ .escalate := by
    simp only [decisionRow, DecideApprovalRequest.decision]
    split_ifs <;> decide
  refine Prog.Held.bind (keeps_updateStep _ _ _) fun _ => ?_
  refine Prog.Held.execute_bind (fun v s hs => ?_) (Prog.Held.of_writes ?_ hG)
  · subst hs
    simp [outcome, Db.verdicts, List.filter_append, hkind, show
      (decisionRow ctx approvalId stepOrder body).approvalId = approvalId from rfl]
  · exact (keeps_fetchApprovalDto _ _).bind fun _ => (keeps_record _ _ _ _).bind fun _ => trivial

theorem decideApproval_secured (ctx : RequestCtx) {id : String} (body : DecideApprovalRequest)
    (hid : parsePublicId .approval id = .ok approvalId) (A : Outcome → Prop) :
    (decideApproval ctx id body).Secured (.approval approvalId) (outcome approvalId) A
      (Decides ctx approvalId body) := by
  have hpending : (decidePending ctx id approvalId body).Secured (.approval approvalId)
      (outcome approvalId) A (Decides ctx approvalId body) := by
    refine Prog.Secured.bind ((keeps_query _).bind fun _ => Prog.writes_ofExcept _) fun row => ?_
    split_ifs
    · exact .of_writes (keeps_answerApproval _)
    refine Prog.Secured.bind (keeps_requireApprover _ _ _) fun _ => ?_
    refine secured_updateApproval (c := fun st => st.status = .pending)
      (h := fun st => ⟨body.newStatus, some ctx.actorUserId, st.currentStep⟩) (fun _ => rfl)
      (fun _ => rfl) (.of_writes (keeps_answerApproval _)) fun st ds hst _ => ?_
    exact held_recordDecision ⟨st, rfl, of_decide_eq_true hst, row.currentStep, rfl⟩
  refine Prog.Secured.ofExcept_bind fun a ha => ?_
  cases hid.symm.trans ha
  refine Prog.Secured.ofExcept_bind fun _ _ => ?_
  unfold Idempotency.replayOr AnswerTable.replayOr
  split
  · exact hpending
  · refine Prog.Secured.bind (keeps_query _) fun stored => ?_
    cases stored with
    | none => exact hpending
    | some stored => trivial

theorem keeps_escalation (ctx : RequestCtx) (step : Int) :
    KeepsOutcome approvalId (do
      insertDecision (escalationRow ctx approvalId step)
      answerApproval approvalId) :=
  (keeps_insertDecision rfl).bind fun _ => keeps_answerApproval _

theorem escalateApproval_secured (ctx : RequestCtx) {id : String}
    (hid : parsePublicId .approval id = .ok approvalId) :
    (escalateApproval ctx id).Secured (.approval approvalId) (outcome approvalId) Outcome.Pending
      HandsOn := by
  refine Prog.Secured.ofExcept_bind fun a ha => ?_
  cases hid.symm.trans ha
  refine Prog.Secured.ofExcept_bind fun _ _ => ?_
  refine Prog.Secured.bind ((keeps_query _).bind fun _ => Prog.writes_ofExcept _) fun row => ?_
  split_ifs
  · exact .of_writes (keeps_answerApproval _)
  refine Prog.Secured.bind (keeps_query _) fun role => ?_
  refine Prog.Secured.bind (keeps_query _) fun maxStep => ?_
  refine Prog.Secured.bind (keeps_updateStep _ _ _) fun _ => ?_
  unfold handOn
  split_ifs
  · simp only [bind_assoc]
    refine Prog.Secured.bind (keeps_updateStep _ _ _) fun _ => ?_
    refine secured_updateApproval (c := fun _ => true)
      (h := fun st => { st with currentStep := row.currentStep + 1 }) (fun _ => rfl) (fun _ => rfl)
      (.of_writes (keeps_escalation ctx _)) fun st ds _ hA => ?_
    obtain ⟨_, hst, hpending⟩ := hA
    cases hst
    exact .of_writes (keeps_escalation ctx _) ⟨st, _, rfl, hpending, rfl⟩
  · cases role with
    | none => exact .of_writes (keeps_escalation ctx _)
    | some role =>
      simp only [bind_assoc]
      refine Prog.Secured.bind (keeps_query _) fun users => ?_
      refine Prog.Secured.bind (keeps_updateStep _ _ _) fun _ => ?_
      refine secured_updateApproval (c := fun _ => true)
        (h := fun st => { st with status := .escalated }) (fun _ => rfl) (fun _ => rfl) ?_
        fun st ds _ hA => ?_
      · refine secured_updateApproval (c := fun _ => true)
          (h := fun st => { st with status := .pending }) (fun _ => rfl) (fun _ => rfl)
          (.of_writes (keeps_escalation ctx _)) fun st ds _ hA => ?_
        obtain ⟨_, hst, hpending⟩ := hA
        cases hst
        exact .of_writes (keeps_escalation ctx _) ⟨st, st.currentStep, rfl, hpending, by rw [← hpending]⟩
      · obtain ⟨_, hst, hpending⟩ := hA
        cases hst
        refine held_updateApproval (h := fun st => { st with status := .pending }) (fun _ => rfl) ?_
        exact .of_writes (keeps_escalation ctx _) ⟨st, st.currentStep, rfl, hpending, by rw [← hpending]⟩

end Requests

inductive ApprovalCall
  | decide (ctx : RequestCtx) (id : String) (body : DecideApprovalRequest)
  | escalate (ctx : RequestCtx) (id : String)

def ApprovalCall.id : ApprovalCall → String
  | decide _ id _ => id
  | escalate _ id => id

def EscalatesPending {ι : Type} [DecidableEq ι] (calls : ι → ApprovalCall) (approvalId : Uuid)
    (c d : Config ι Db RowKey Finance.AppError Response) : Prop :=
  ∀ i ctx id, calls i = .escalate ctx id → c.Executes d i (.approval approvalId) →
    ∃ row, c.db.approvals.find? approvalId = some row ∧ row.status = .pending

/-- The verdicts of an approval are what its standing says. -/
inductive Outcome.Consistent : Outcome → Prop
  | pending {st : Standing} (undecided : st.status = .pending) : Consistent (some st, [])
  | decided {st : Standing} {v : DecisionRow} (final : st.status = .approved ∨ st.status = .rejected)
      (agrees : v.decision = if st.status = .approved then .approve else .reject)
      (by_actor : st.decidedBy = some v.actorUserId) : Consistent (some st, [v])

theorem Decides.consistent {ctx : RequestCtx} {approvalId : Uuid} {body : DecideApprovalRequest}
    {o o' : Outcome} (h : Decides ctx approvalId body o o') (ho : o.Consistent) : o'.Consistent := by
  obtain ⟨st, hst, hpending, step, rfl⟩ := h
  cases ho with
  | pending _ =>
    refine .decided ?_ ?_ rfl
    · cases hb : body.approve <;> simp [DecideApprovalRequest.newStatus, hb]
    · cases hb : body.approve <;>
        simp [DecideApprovalRequest.newStatus, decisionRow, DecideApprovalRequest.decision, hb]
  | decided final _ _ =>
    cases hst
    rw [hpending] at final
    simp at final

theorem HandsOn.consistent {o o' : Outcome} (h : HandsOn o o') (ho : o.Consistent) : o'.Consistent := by
  obtain ⟨st, step, hst, hpending, rfl⟩ := h
  cases ho with
  | pending _ =>
    cases hst
    exact .pending hpending
  | decided final _ _ =>
    cases hst
    rw [hpending] at final
    simp at final

variable [Formats]

def ApprovalCall.run : ApprovalCall → Tx Response
  | decide ctx id body => decideApproval ctx id body
  | escalate ctx id => escalateApproval ctx id

omit [Formats] in
/-- The part of the approval that a request may start from once it has the lock. -/
def ApprovalCall.Needs : ApprovalCall → Outcome → Prop
  | decide .. => fun _ => True
  | escalate .. => Outcome.Pending

omit [Formats] in
def ApprovalCall.Makes (approvalId : Uuid) : ApprovalCall → Outcome → Outcome → Prop
  | decide ctx _ body => Decides ctx approvalId body
  | escalate .. => HandsOn

theorem ApprovalCall.secured {approvalId : Uuid} (call : ApprovalCall)
    (hid : parsePublicId .approval call.id = .ok approvalId) :
    call.run.Secured (.approval approvalId) (outcome approvalId) call.Needs (call.Makes approvalId) := by
  cases call with
  | decide ctx id body => exact decideApproval_secured ctx body hid _
  | escalate ctx id => exact escalateApproval_secured ctx hid

omit [Formats] in
theorem ApprovalCall.makes_pending {approvalId : Uuid} {call : ApprovalCall} {o o' : Outcome}
    (h : call.Makes approvalId o o') : o.Pending := by
  cases call with
  | decide ctx id body =>
    obtain ⟨st, hst, hpending, _⟩ := h
    exact ⟨st, hst, hpending⟩
  | escalate ctx id =>
    obtain ⟨st, _, hst, hpending, _⟩ := h
    exact ⟨st, hst, hpending⟩

omit [Formats] in
theorem ApprovalCall.makes_consistent {approvalId : Uuid} {call : ApprovalCall} {o o' : Outcome}
    (h : call.Makes approvalId o o') (ho : o.Consistent) : o'.Consistent := by
  cases call with
  | decide ctx id body => exact Decides.consistent h ho
  | escalate ctx id => exact HandsOn.consistent h ho

section Runs
variable {ι : Type} [DecidableEq ι] {calls : ι → ApprovalCall} {approvalId : Uuid}
  {c d : Config ι Db RowKey Finance.AppError Response}

omit [Formats] in
theorem EscalatesPending.needs (h : EscalatesPending calls approvalId c d) {i : ι}
    (hx : c.Executes d i (.approval approvalId)) : (calls i).Needs (outcome approvalId c.db) := by
  cases hc : calls i with
  | decide ctx id body => trivial
  | escalate ctx id =>
    obtain ⟨row, hrow, hpending⟩ := h i ctx id hc hx
    exact ⟨row.standing, by simp [outcome, hrow], hpending⟩

/-- In every interleaving of decisions and escalations of a pending approval in which no
escalation updates the approval once it is decided: a decided approval has one verdict, which
agrees with it, and neither its standing nor the verdict ever changes again. -/
theorem decided_approval_final {db : Db} {first row : ApprovalRow}
    (hid : ∀ i, parsePublicId .approval (calls i).id = .ok approvalId)
    (hfirst : db.approvals.find? approvalId = some first) (hpending : first.status = .pending)
    (hnone : db.verdicts approvalId = [])
    (h : ReachableWhere (EscalatesPending calls approvalId) (fun i => (calls i).run) db c)
    (hrow : c.db.approvals.find? approvalId = some row)
    (hdecided : row.status = .approved ∨ row.status = .rejected) :
    (∃ v, c.db.verdicts approvalId = [v] ∧
      v.decision = (if row.status = .approved then .approve else .reject) ∧
      row.decidedBy = some v.actorUserId) ∧
    ∀ d, Relation.ReflTransGen (fun x y => Step x y ∧ EscalatesPending calls approvalId x y) c d →
      d.db.verdicts approvalId = c.db.verdicts approvalId ∧
      ∃ row', d.db.approvals.find? approvalId = some row' ∧ row'.status = row.status ∧
        row'.decidedBy = row.decidedBy ∧ row'.currentStep = row.currentStep := by
  have hsec (i : ι) := (calls i).secured (hid i)
  have hneeds (x y : Config ι Db RowKey Finance.AppError Response) (i : ι)
      (hK : EscalatesPending calls approvalId x y) := hK.needs (i := i)
  have hout : outcome approvalId c.db = (some row.standing, c.db.verdicts approvalId) := by
    simp [outcome, hrow]
  constructor
  · have hcons : (outcome approvalId c.db).Consistent := by
      refine h.guarded_invariant hsec hneeds ?_ fun i _ _ ho hm => ApprovalCall.makes_consistent hm ho
      rw [outcome, hfirst, hnone]
      exact .pending hpending
    rw [hout] at hcons
    generalize hv : c.db.verdicts approvalId = vs at hcons
    cases hcons with
    | pending hst =>
      rw [show row.status = .pending from hst] at hdecided
      simp at hdecided
    | @decided _ v _ agrees by_actor => exact ⟨v, rfl, agrees, by_actor⟩
  · intro d hd
    have hkept : ReachableWhere (EscalatesPending calls approvalId) (fun i => (calls i).run) db d ∧
        outcome approvalId d.db = outcome approvalId c.db := by
      induction hd with
      | refl => exact ⟨h, rfl⟩
      | tail _ hs ih =>
        obtain ⟨hx, hsame⟩ := ih
        refine ⟨hx.step hs.1 hs.2, ?_⟩
        rcases hx.changes hs.1 hs.2 hsec hneeds with he | ⟨i, hm⟩
        · exact he.trans hsame
        · -- Nothing starts from a decided approval.
          obtain ⟨st, hst, hp⟩ := ApprovalCall.makes_pending hm
          rw [hsame, hout] at hst
          cases hst
          rw [show row.status = .pending from hp] at hdecided
          simp at hdecided
    obtain ⟨_, hsame⟩ := hkept
    rw [hout] at hsame
    obtain ⟨hstanding, hverdicts⟩ := Prod.mk.inj hsame
    obtain ⟨row', hrow', hst⟩ := Option.map_eq_some_iff.mp hstanding
    obtain ⟨hs, hb, hc⟩ := Standing.mk.inj hst
    exact ⟨hverdicts, row', hrow', hs, hb, hc⟩

end Runs

def escalateAndApprove : Fin 2 → ApprovalCall :=
  sideBySide (.escalate (.of 9) (Finance.PublicId.mk .approval 5).asStr)
    (.decide (.of 1) (Finance.PublicId.mk .approval 5).asStr { approve := true })

omit [Formats] in
/-- The approval is escalated, and then approved. -/
theorem decided_approval_final_after_escalation :
    letI := canonicalFormats
    ∃ c row, ReachableWhere (EscalatesPending escalateAndApprove 5)
        (fun i => (escalateAndApprove i).run) Db.oneStep c ∧
      c.db.approvals.find? 5 = some row ∧ row.status = .approved ∧
      (∃ v, c.db.verdicts 5 = [v] ∧
        v.decision = (if row.status = .approved then .approve else .reject) ∧
        row.decidedBy = some v.actorUserId) ∧
      ∀ d, Relation.ReflTransGen (fun x y => Step x y ∧ EscalatesPending escalateAndApprove 5 x y) c d →
        d.db.verdicts 5 = c.db.verdicts 5 ∧
        ∃ row', d.db.approvals.find? 5 = some row' ∧ row'.status = row.status ∧
          row'.decidedBy = row.decidedBy ∧ row'.currentStep = row.currentStep := by
  let := canonicalFormats
  obtain ⟨c, hc, hst⟩ := ReachableWhere.of_play (K := EscalatesPending escalateAndApprove 5)
    (fun i => (escalateAndApprove i).run) Db.oneStep
    (fun c => c.db.statusOf 5 = some .pending) (fun c => c.db.statusOf 5 = some .approved)
    (fun x y hx i ctx id _ _ => Option.map_eq_some_iff.mp (of_decide_eq_true hx))
    (Move.through 0 11 ++ Move.through 1 9) (by decide +kernel)
  obtain ⟨row, hrow, happroved⟩ := Option.map_eq_some_iff.mp (of_decide_eq_true hst)
  exact ⟨c, row, hc, hrow, happroved,
    decided_approval_final (by decide +kernel) rfl rfl rfl hc hrow (.inl happroved)⟩

omit [Formats] in
/-- The escalation reads the approval, the decision commits, and the escalation goes on. -/
theorem decided_approval_reopened :
    letI := canonicalFormats
    ∃ c d, Reachable (fun i => (escalateAndApprove i).run) Db.oneStep c ∧
      Relation.ReflTransGen Step c d ∧ c.db.statusOf 5 = some .approved ∧
      d.db.statusOf 5 = some .pending := by
  let := canonicalFormats
  obtain ⟨c, d, hc, hd, happroved, hpending⟩ :=
    Reachable.of_play_twice (fun i => (escalateAndApprove i).run) Db.oneStep
      (.exec 0 :: Move.through 1 7) (Move.through 0 10) (fun c => c.db.statusOf 5 = some .approved)
      (fun d => d.db.statusOf 5 = some .pending) (by decide +kernel)
  exact ⟨c, d, hc, hd, of_decide_eq_true happroved, of_decide_eq_true hpending⟩

end Noxara.Approvals
