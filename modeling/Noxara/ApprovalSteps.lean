import Noxara.ApprovalRequests

/-! One approval and its steps under the requests: another approval's requests leave them alone,
the orders of the steps never change, and an escalation moves on to the next order. -/
namespace Noxara.Approvals

open Transaction
open Finance (Uuid)

def Db.HasStep (db : Db) (approvalId : Uuid) (order : Int) : Prop :=
  (db.steps.find? (approvalId, order)).isSome

theorem Db.HasStep.exists {db : Db} {approvalId : Uuid} {order : Int} (h : db.HasStep approvalId order) :
    ∃ x, db.steps.find? (approvalId, order) = some x := Option.isSome_iff_exists.mp h

theorem Db.mem_stepOrders {db : Db} {approvalId : Uuid} {order : Int} :
    order ∈ db.stepOrders approvalId ↔ db.HasStep approvalId order := by
  simp only [stepOrders, List.mem_filterMap, HasStep, Option.isSome_iff_exists, Table.find?_eq_some]
  constructor
  · rintro ⟨⟨⟨a, o⟩, x⟩, hmem, hif⟩
    split_ifs at hif with ha
    cases ha
    cases hif
    exact ⟨x, hmem⟩
  · rintro ⟨x, hmem⟩
    exact ⟨_, hmem, if_pos rfl⟩

theorem Db.maxStep_spec {db : Db} {approvalId : Uuid} {order : Int} (h : db.HasStep approvalId order) :
    db.HasStep approvalId (db.maxStep approvalId) ∧
      ∀ o, db.HasStep approvalId o → o ≤ db.maxStep approvalId := by
  have hmem := mem_stepOrders.mpr h
  unfold maxStep
  cases hm : (db.stepOrders approvalId).max? with
  | none =>
    rw [List.max?_eq_none_iff.mp hm] at hmem
    cases hmem
  | some m =>
    obtain ⟨hin, hle⟩ := List.max?_eq_some_iff.mp hm
    exact ⟨mem_stepOrders.mp hin, fun o ho => hle o (mem_stepOrders.mpr ho)⟩

theorem Db.maxStep_congr {s t : Db} {approvalId : Uuid}
    (h : ∀ o, t.HasStep approvalId o ↔ s.HasStep approvalId o) :
    t.maxStep approvalId = s.maxStep approvalId := by
  by_cases hone : ∃ o, s.HasStep approvalId o
  · obtain ⟨o, ho⟩ := hone
    obtain ⟨hs, hsle⟩ := maxStep_spec ho
    obtain ⟨ht, htle⟩ := maxStep_spec ((h o).mpr ho)
    have h1 := hsle _ ((h _).mp ht)
    have h2 := htle _ ((h _).mpr hs)
    omega
  · have hnone (db : Db) (hdb : ¬∃ o, db.HasStep approvalId o) : db.stepOrders approvalId = [] := by
      refine List.eq_nil_iff_forall_not_mem.mpr fun o ho => hdb ⟨o, mem_stepOrders.mp ho⟩
    have ht : ¬∃ o, t.HasStep approvalId o := by
      rintro ⟨o, ho⟩
      exact hone ⟨o, (h o).mp ho⟩
    rw [maxStep, maxStep, hnone s hone, hnone t ht]

/-- What an accepted request does to one approval. -/
inductive EffectOn (approvalId : Uuid) (s t : Db) : Prop
  | frame (row : t.approvals.find? approvalId = s.approvals.find? approvalId)
      (steps : ∀ o, t.steps.find? (approvalId, o) = s.steps.find? (approvalId, o))
      (decisions : ∃ more, t.decisions = s.decisions ++ more)
  | created {matched : MatchedPolicy} {row : ApprovalRow} (created : Created approvalId matched row s t)
  | decided {ctx : RequestCtx} {body : DecideApprovalRequest} {row : ApprovalRow}
      (found : s.approvals.find? approvalId = some row) (pending : row.status = .pending)
      (decided : Decided ctx approvalId body row s t)
  | escalated {ctx : RequestCtx} {row : ApprovalRow} (found : s.approvals.find? approvalId = some row)
      (pending : row.status = .pending) (escalated : t = s.escalated ctx approvalId row)

theorem step_ne {a b : Uuid} (h : a ≠ b) (o p : Int) : (a, o) ≠ (b, p) := fun he => h (Prod.mk.inj he).1

theorem Db.escalated_log (s : Db) (ctx : RequestCtx) (approvalId : Uuid) (row : ApprovalRow) :
    (s.escalated ctx approvalId row).decisions =
        s.decisions ++ [escalationRow ctx approvalId row.currentStep] ∧
      (s.escalated ctx approvalId row).idempotency = s.idempotency := by
  unfold escalated
  by_cases hlt : row.currentStep < s.maxStep approvalId
  · simp only [hlt, if_true, and_self]
  · simp only [hlt, if_false]
    cases (s.steps.find? (approvalId, row.currentStep)).bind (·.escalateToRole) with
    | none => exact ⟨rfl, rfl⟩
    | some role => exact ⟨rfl, rfl⟩

theorem Db.escalated_frame {s : Db} (ctx : RequestCtx) {a b : Uuid} (row : ApprovalRow) (h : a ≠ b) :
    (s.escalated ctx b row).approvals.find? a = s.approvals.find? a ∧
      ∀ o, (s.escalated ctx b row).steps.find? (a, o) = s.steps.find? (a, o) := by
  have hstep (t : Table (Uuid × Int) StepRow) (p o : Int) (f : StepRow → StepRow) :
      (t.modify (b, p) f).find? (a, o) = t.find? (a, o) := Table.find?_modify_ne t f (step_ne h o p)
  unfold escalated
  by_cases hlt : row.currentStep < s.maxStep b
  · simp only [hlt, if_true]
    refine ⟨Table.find?_modify_ne _ _ h, fun o => ?_⟩
    rw [hstep, hstep]
  · simp only [hlt, if_false]
    cases (s.steps.find? (b, row.currentStep)).bind (·.escalateToRole) with
    | none => exact ⟨rfl, fun o => hstep ..⟩
    | some role =>
      refine ⟨?_, fun o => ?_⟩
      · rw [Table.find?_modify_ne _ _ h, Table.find?_modify_ne _ _ h]
      · rw [hstep, hstep]

theorem Effect.on {s t : Db} (h : Effect s t) (approvalId : Uuid) : EffectOn approvalId s t := by
  cases h with
  | none ha hs hd => exact .frame (by rw [ha]) (fun o => by rw [hs]) ⟨[], by rw [hd, List.append_nil]⟩
  | @created a matched row hc =>
    by_cases he : approvalId = a
    · subst he
      exact .created hc
    · obtain ⟨steps, _, _, rfl, hother, _⟩ := hc.stored
      exact .frame (Table.find?_insert_ne _ _ he) (fun o => hother (approvalId, o) he)
        ⟨[], (List.append_nil _).symm⟩
  | @decided ctx a body row hrow hp hd =>
    by_cases he : approvalId = a
    · subst he
      exact .decided hrow hp hd
    · obtain ⟨_, _, rfl⟩ := hd
      exact .frame (Table.find?_modify_ne _ _ he)
        (fun o => Table.find?_modify_ne _ _ (step_ne he _ _)) ⟨_, rfl⟩
  | @escalated ctx a row hrow hp ht =>
    by_cases he : approvalId = a
    · subst he
      exact .escalated hrow hp ht
    · subst ht
      obtain ⟨hr, hs⟩ := s.escalated_frame ctx row he
      exact .frame hr hs ⟨_, (s.escalated_log ctx a row).1⟩

section Escalated
variable {s : Db} {ctx : RequestCtx} {approvalId : Uuid} {row : ApprovalRow}

def Db.nextStep (s : Db) (approvalId : Uuid) (row : ApprovalRow) : Int :=
  if row.currentStep < s.maxStep approvalId then row.currentStep + 1 else row.currentStep

theorem Db.escalated_row (ctx : RequestCtx) (hrow : s.approvals.find? approvalId = some row)
    (hpending : row.status = .pending) :
    ∃ row', (s.escalated ctx approvalId row).approvals.find? approvalId = some row' ∧
      row'.status = .pending ∧ row'.routingSnapshot = row.routingSnapshot ∧
      row'.currentStep = s.nextStep approvalId row := by
  unfold escalated nextStep
  by_cases hlt : row.currentStep < s.maxStep approvalId
  · simp only [hlt, if_true]
    exact ⟨row.moveTo ctx.now (row.currentStep + 1), by rw [Table.find?_modify_self, hrow]; rfl,
      hpending, rfl, rfl⟩
  · simp only [hlt, if_false]
    cases (s.steps.find? (approvalId, row.currentStep)).bind (·.escalateToRole) with
    | none => exact ⟨row, hrow, hpending, rfl, rfl⟩
    | some role =>
      refine ⟨(row.escalate ctx.now).keepPending, ?_, rfl, rfl, rfl⟩
      rw [Table.find?_modify_self, Table.find?_modify_self, hrow]
      rfl

theorem Db.escalated_hasStep (o : Int) :
    (s.escalated ctx approvalId row).HasStep approvalId o ↔ s.HasStep approvalId o := by
  unfold escalated HasStep
  by_cases hlt : row.currentStep < s.maxStep approvalId
  · simp only [hlt, if_true, Table.isSome_find?_modify]
  · simp only [hlt, if_false]
    cases (s.steps.find? (approvalId, row.currentStep)).bind (·.escalateToRole) with
    | none => simp only [Table.isSome_find?_modify]
    | some role => simp only [Table.isSome_find?_modify]

theorem Db.escalated_earlier {o : Int} (ho : o < row.currentStep) :
    (s.escalated ctx approvalId row).steps.find? (approvalId, o) = s.steps.find? (approvalId, o) := by
  have hne {p : Int} (hp : o < p) : (approvalId, o) ≠ (approvalId, p) := by
    intro he
    have := (Prod.mk.inj he).2
    omega
  unfold escalated
  by_cases hlt : row.currentStep < s.maxStep approvalId
  · simp only [hlt, if_true]
    rw [Table.find?_modify_ne _ _ (hne (by omega)), Table.find?_modify_ne _ _ (hne ho)]
  · simp only [hlt, if_false]
    cases (s.steps.find? (approvalId, row.currentStep)).bind (·.escalateToRole) with
    | none => exact Table.find?_modify_ne _ _ (hne ho)
    | some role =>
      rw [Table.find?_modify_ne _ _ (hne ho), Table.find?_modify_ne _ _ (hne ho)]

theorem Db.escalated_current {x : StepRow} (hlt : row.currentStep < s.maxStep approvalId)
    (hx : s.steps.find? (approvalId, row.currentStep) = some x) :
    (s.escalated ctx approvalId row).steps.find? (approvalId, row.currentStep) =
      some (x.escalate ctx.now) := by
  have hne : (approvalId, row.currentStep) ≠ (approvalId, row.currentStep + 1) := by
    intro he
    have := (Prod.mk.inj he).2
    omega
  simp only [escalated, hlt, if_true]
  rw [Table.find?_modify_ne _ _ hne, Table.find?_modify_self, hx]
  rfl

end Escalated

def ApprovalRow.orders (a : ApprovalRow) : List Int := a.routingSnapshot.steps.map (·.order)

/-- The steps belong to approvals, and an approval has those it was created with. -/
structure Db.StepsKept (db : Db) (approvalId : Uuid) : Prop where
  belong : db.approvals.find? approvalId = none → ∀ o, ¬db.HasStep approvalId o
  orders : ∀ row, db.approvals.find? approvalId = some row →
    ∀ o, db.HasStep approvalId o ↔ o ∈ row.orders

theorem Created.row_eq {approvalId : Uuid} {matched : MatchedPolicy} {row : ApprovalRow} {s t : Db}
    (h : Created approvalId matched row s t) : t.approvals.find? approvalId = some row := by
  obtain ⟨_, _, _, rfl, _⟩ := h.stored
  exact Table.find?_insert_self h.fresh row

theorem Created.hasStep {approvalId : Uuid} {matched : MatchedPolicy} {row : ApprovalRow} {s t : Db}
    (h : Created approvalId matched row s t) (hs : s.StepsKept approvalId) (o : Int) :
    t.HasStep approvalId o ↔ o ∈ row.orders := by
  obtain ⟨steps, _, first, rfl, _, hmine⟩ := h.stored
  rcases hmine o with ⟨x, hx, rfl, hfind⟩ | ⟨hnot, hfind⟩
  · have hmem : x.order ∈ row.orders := List.mem_map_of_mem hx
    simp [Db.HasStep, hfind, hmem]
  · have hnone : ¬s.HasStep approvalId o := hs.belong h.fresh o
    have hmem : o ∉ row.orders := by
      intro hm
      obtain ⟨x, hx, rfl⟩ := List.mem_map.mp hm
      exact hnot x hx rfl
    simpa [Db.HasStep, hfind, hmem] using hnone

theorem Decided.row_eq {ctx : RequestCtx} {approvalId : Uuid} {body : DecideApprovalRequest}
    {row : ApprovalRow} {s t : Db} (h : Decided ctx approvalId body row s t)
    (hrow : s.approvals.find? approvalId = some row) :
    t.approvals.find? approvalId = some (row.decide ctx body) := by
  obtain ⟨_, _, rfl⟩ := h
  rw [Table.find?_modify_self, hrow]
  rfl

theorem Decided.hasStep {ctx : RequestCtx} {approvalId : Uuid} {body : DecideApprovalRequest}
    {row : ApprovalRow} {s t : Db} (h : Decided ctx approvalId body row s t) (o : Int) :
    t.HasStep approvalId o ↔ s.HasStep approvalId o := by
  obtain ⟨_, _, rfl⟩ := h
  simp only [Db.HasStep, Table.isSome_find?_modify]

theorem EffectOn.stepsKept {approvalId : Uuid} {s t : Db} (h : EffectOn approvalId s t)
    (hs : s.StepsKept approvalId) : t.StepsKept approvalId := by
  cases h with
  | frame hr hst _ =>
    have hhas (o : Int) : t.HasStep approvalId o ↔ s.HasStep approvalId o := by
      rw [Db.HasStep, Db.HasStep, hst]
    refine ⟨fun hn o ho => hs.belong (hr ▸ hn) o ((hhas o).mp ho), fun row hrow o => ?_⟩
    exact (hhas o).trans (hs.orders row (hr ▸ hrow) o)
  | @created _ row hc =>
    refine ⟨fun hn => ?_, fun row' hrow' o => ?_⟩
    · rw [hc.row_eq] at hn
      cases hn
    · cases hc.row_eq.symm.trans hrow'
      exact hc.hasStep hs o
  | @decided ctx body row hrow _ hd =>
    refine ⟨fun hn => ?_, fun row' hrow' o => ?_⟩
    · rw [hd.row_eq hrow] at hn
      cases hn
    · cases (hd.row_eq hrow).symm.trans hrow'
      exact (hd.hasStep o).trans (hs.orders row hrow o)
  | @escalated ctx row hrow hp ht =>
    subst ht
    obtain ⟨row', hrow', _, hsnap, _⟩ := Db.escalated_row ctx hrow hp
    refine ⟨fun hn => ?_, fun row'' hrow'' o => ?_⟩
    · rw [hrow'] at hn
      cases hn
    · cases hrow'.symm.trans hrow''
      rw [Db.escalated_hasStep, hs.orders row hrow o, ApprovalRow.orders, ApprovalRow.orders, hsnap]

end Noxara.Approvals
