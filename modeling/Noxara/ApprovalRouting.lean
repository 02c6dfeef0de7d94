import Mathlib.Data.List.Destutter
import Mathlib.Data.List.Sort
import Noxara.ApprovalSchema

/-! Routing: which policy takes a request, and who its steps are assigned to. -/
namespace Noxara.Approvals

open Transaction
open Finance (Uuid PublicId Formats stripPrefix trim decimalValue InI64)

structure CreateApprovalRequest where
  subjectType : String
  subjectId : String
  title : Option String := none
  summary : Option String := none
  amountMinor : Option Int := none
  currency : Option String := none
  category : Option String := none
  departmentId : Option String := none
  requesterRole : Option String := none

structure RouteContext where
  amountMinor : Option Int
  discountBps : Option Int
  category : Option String
  departmentId : Option Uuid
  requesterRole : Option String

/-- `str::parse::<i64>`. -/
def parseI64 (s : String) : Option Int :=
  let signed : Int × List Char := match s.toList with
    | '-' :: cs => (-1, cs)
    | '+' :: cs => (1, cs)
    | cs => (1, cs)
  if signed.2.isEmpty then none
  else (decimalValue signed.2).bind fun n =>
    if InI64 (signed.1 * n) then some (signed.1 * n) else none

/-- The discount of a quote, which its caller puts into the summary or the category. -/
def CreateApprovalRequest.discountBps (req : CreateApprovalRequest) : Option Int :=
  (req.summary.bind fun s => (stripPrefix s "discount_bps:").bind fun n => parseI64 (trim n)).or
    (req.category.bind fun c => (stripPrefix c "bps:").bind parseI64)

def eqIgnoreAsciiCase (a b : String) : Bool := a.toLower = b.toLower

section Routing
variable [Formats]

def departmentOf (s : String) : Option Uuid :=
  match PublicId.fromStr s with
  | .ok pid => if pid.kind = .department then some pid.uuid else Formats.uuidParseStr s
  | .error _ => Formats.uuidParseStr s

def RouteContext.fromRequest (req : CreateApprovalRequest) : RouteContext where
  amountMinor := req.amountMinor
  discountBps := if req.subjectType = "quote_discount" then req.discountBps else none
  category := req.category
  departmentId := req.departmentId.bind departmentOf
  requesterRole := req.requesterRole

def matchesCriteria (m : PolicyMatch) (ctx : RouteContext) : Bool :=
  m.amountMinorGte.all (fun gte => gte ≤ ctx.amountMinor.getD 0) &&
  m.amountMinorLt.all (fun lt => ctx.amountMinor.getD 0 < lt) &&
  m.discountBpsGte.all (fun bps => bps ≤ ctx.discountBps.getD 0) &&
  (m.categories.isEmpty || ctx.category.any fun cat => m.categories.any fun c => eqIgnoreAsciiCase c cat) &&
  (m.departmentIds.isEmpty || ctx.departmentId.any fun dep =>
    m.departmentIds.any fun d => d = Formats.uuidDisplay dep || d = (PublicId.mk .department dep).asStr) &&
  (m.requesterRoles.isEmpty || ctx.requesterRole.any fun role =>
    m.requesterRoles.any fun r => eqIgnoreAsciiCase r role)

/-- The user an approver of a policy names, by UUID or by public id. -/
def approverId (raw : String) : Option Uuid :=
  match Formats.uuidParseStr raw with
  | some u => some u
  | none =>
    match PublicId.fromStr raw with
    | .ok pid => if pid.kind = .user then some pid.uuid else none
    | .error _ => none

end Routing

def Db.roleMembers (db : Db) (lower : String → String) (role : String) : List Uuid :=
  (db.members.filter fun m => m.revokedAt.isNone && m.systemKey.map lower = some (lower role)).map
    (·.userId)

def queryRoleMembers (ctx : RequestCtx) (role : String) : Tx (List Uuid) :=
  Prog.query fun db => db.roleMembers ctx.lower role

/-- `sort` and `dedup`. -/
def sortDedup (ids : List Uuid) : List Uuid := (ids.insertionSort (· ≤ ·)).destutter (· ≠ ·)

section Snapshot
variable [Formats]

/-- The named users, or else the members with the role. -/
def resolveStepAssignees (ctx : RequestCtx) (step : PolicyStepDef) : Tx (List Uuid) :=
  match step.approverUserIds.filterMap approverId, step.approverRole with
  | [], some role => do
    let ids ← queryRoleMembers ctx role
    pure (sortDedup ids)
  | ids, _ => pure (sortDedup ids)

def PolicyStepDef.resolved (step : PolicyStepDef) (assigneeUserIds : List Uuid) : ResolvedStepSnapshot where
  order := step.order
  approverRole := step.approverRole
  assigneeUserIds
  slaSeconds := step.slaSeconds
  escalateToRole := step.escalateToRole

def resolveSteps (ctx : RequestCtx) : List PolicyStepDef → Tx (List ResolvedStepSnapshot)
  | [] => pure []
  | step :: rest => do
    let assignees ← resolveStepAssignees ctx step
    let steps ← resolveSteps ctx rest
    pure (step.resolved assignees :: steps)

def buildRationale (policyName : String) (version : Int) (mode : ApprovalMode)
    (definition : PolicyDefinition) (ctx : RouteContext) : String :=
  String.intercalate "; "
    ([s!"Routed by policy \"{policyName}\" v{version} ({mode.asStr})"] ++
      (ctx.amountMinor.map fun a => s!"amount_minor={a}").toList ++
      (ctx.discountBps.map fun b => s!"discount_bps={b}").toList ++
      (ctx.category.map fun c => s!"category={c}").toList ++
      (ctx.requesterRole.map fun r => s!"requester_role={r}").toList ++
      if !definition.matchCriteria.categories.isEmpty || definition.matchCriteria.amountMinorGte.isSome ||
          definition.matchCriteria.discountBpsGte.isSome
        then ["matched policy criteria"] else [])

/-- `sort_by_key(|s| s.order)`, which is stable. -/
def PolicyDefinition.ordered (definition : PolicyDefinition) : List PolicyStepDef :=
  definition.steps.insertionSort fun a b => a.order ≤ b.order

def buildRoutingSnapshot (ctx : RequestCtx) (policy : PolicyRow) (definition : PolicyDefinition)
    (route : RouteContext) : Tx RoutingSnapshot := do
  let steps ← resolveSteps ctx definition.ordered
  pure
    { policyPublicId := policy.publicId
      policyName := policy.name
      policyVersion := policy.currentVersion
      mode := definition.mode
      matchCriteria := definition.matchCriteria
      steps
      rationale := buildRationale policy.name policy.currentVersion definition.mode definition route }

structure MatchedPolicy where
  policyId : Uuid
  policy : PolicyRow
  version : PolicyVersionRow

omit [Formats] in
/-- The active policies for a kind of subject, oldest first. -/
def Db.activePolicies (db : Db) (subjectType : String) : List (Uuid × PolicyRow) :=
  (db.policies.rows.filter fun p => p.2.subjectType = subjectType && p.2.isActive).insertionSort
    fun a b => a.2.createdAt ≤ b.2.createdAt

def firstMatch (route : RouteContext) : List (Uuid × PolicyRow) → Tx (Option MatchedPolicy)
  | [] => pure none
  | (policyId, policy) :: rest => do
    match ← Prog.query (·.policyVersions.find? (policyId, policy.currentVersion)) with
    | none => firstMatch route rest
    | some version =>
      if matchesCriteria version.definition.matchCriteria route then
        pure (some ⟨policyId, policy, version⟩)
      else firstMatch route rest

def findMatchingPolicy (subjectType : String) (route : RouteContext) : Tx (Option MatchedPolicy) := do
  let rows ← Prog.query fun db => db.activePolicies subjectType
  firstMatch route rows

def Db.assigneesOf (db : Db) (ctx : RequestCtx) (step : PolicyStepDef) : List Uuid :=
  match step.approverUserIds.filterMap approverId, step.approverRole with
  | [], some role => sortDedup (db.roleMembers ctx.lower role)
  | ids, _ => sortDedup ids

theorem run_resolveStepAssignees (ctx : RequestCtx) (step : PolicyStepDef) (s : Db) :
    (resolveStepAssignees ctx step).run s = .ok (s.assigneesOf ctx step, s) := by
  unfold resolveStepAssignees Db.assigneesOf
  split <;> rfl

theorem run_resolveSteps (ctx : RequestCtx) (steps : List PolicyStepDef) (s : Db) :
    (resolveSteps ctx steps).run s = .ok (steps.map fun x => x.resolved (s.assigneesOf ctx x), s) := by
  induction steps with
  | nil => rfl
  | cons step rest ih =>
    simp only [resolveSteps, Prog.run_bind, run_resolveStepAssignees, Except.bind, ih]
    rfl

theorem run_buildRoutingSnapshot_ok {ctx : RequestCtx} {policy : PolicyRow} {d : PolicyDefinition}
    {route : RouteContext} {s : Db} {r : RoutingSnapshot × Db}
    (h : (buildRoutingSnapshot ctx policy d route).run s = .ok r) :
    r.1.steps = d.ordered.map (fun x => x.resolved (s.assigneesOf ctx x)) ∧ r.1.mode = d.mode ∧
      r.2 = s := by
  obtain ⟨steps, u, hs, h⟩ := Prog.run_bind_ok.mp h
  rw [run_resolveSteps] at hs
  obtain ⟨rfl, rfl⟩ := Prod.mk.inj (Except.ok.inj hs)
  cases h
  exact ⟨rfl, rfl, rfl⟩

theorem run_firstMatch_ok {route : RouteContext} {rows : List (Uuid × PolicyRow)} {s : Db}
    {r : Option MatchedPolicy × Db} (h : (firstMatch route rows).run s = .ok r) :
    r.2 = s ∧ ∀ m, r.1 = some m →
      (m.policyId, m.policy) ∈ rows ∧
      s.policyVersions.find? (m.policyId, m.policy.currentVersion) = some m.version ∧
      matchesCriteria m.version.definition.matchCriteria route = true := by
  induction rows with
  | nil =>
    cases h
    refine ⟨rfl, fun m hm => ?_⟩
    cases hm
  | cons row rest ih =>
    have hrest (h : (firstMatch route rest).run s = .ok r) : r.2 = s ∧ ∀ m, r.1 = some m →
        (m.policyId, m.policy) ∈ row :: rest ∧
        s.policyVersions.find? (m.policyId, m.policy.currentVersion) = some m.version ∧
        matchesCriteria m.version.definition.matchCriteria route = true := by
      obtain ⟨hs, hm⟩ := ih h
      exact ⟨hs, fun m he => ⟨List.mem_cons_of_mem _ (hm m he).1, (hm m he).2⟩⟩
    simp only [firstMatch, Prog.run_query_bind] at h
    split at h
    · exact hrest h
    · next version hv =>
      by_cases hc : matchesCriteria version.definition.matchCriteria route = true
      · rw [if_pos hc] at h
        cases h
        refine ⟨rfl, fun m he => ?_⟩
        cases he
        exact ⟨List.mem_cons_self .., hv, hc⟩
      · rw [if_neg hc] at h
        exact hrest h

theorem run_findMatchingPolicy_ok {subjectType : String} {route : RouteContext} {s : Db}
    {r : Option MatchedPolicy × Db} (h : (findMatchingPolicy subjectType route).run s = .ok r) :
    r.2 = s ∧ ∀ m, r.1 = some m →
      (m.policyId, m.policy) ∈ s.activePolicies subjectType ∧
      s.policyVersions.find? (m.policyId, m.policy.currentVersion) = some m.version ∧
      matchesCriteria m.version.definition.matchCriteria route = true := by
  simp only [findMatchingPolicy, Prog.run_query_bind] at h
  exact run_firstMatch_ok h

end Snapshot

end Noxara.Approvals
