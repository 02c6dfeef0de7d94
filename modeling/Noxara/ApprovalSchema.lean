import Noxara.FinanceStatements

/-! The data of the approval engine: versioned policies, approvals with their steps, the log of
decisions and the delegations. -/
namespace Noxara.Approvals

open Transaction
open Finance (Uuid Timestamp AppError)

inductive ApprovalMode
  | sequential | any | all
  deriving DecidableEq

def ApprovalMode.asStr : ApprovalMode → String
  | sequential => "sequential"
  | any => "any"
  | all => "all"

/-- Which requests a policy routes. -/
structure PolicyMatch where
  amountMinorGte : Option Int := none
  amountMinorLt : Option Int := none
  discountBpsGte : Option Int := none
  categories : List String := []
  departmentIds : List String := []
  requesterRoles : List String := []
  deriving DecidableEq

structure PolicyStepDef where
  order : Int
  approverRole : Option String := none
  approverUserIds : List String := []
  slaSeconds : Option Int := none
  escalateToRole : Option String := none
  deriving DecidableEq

structure PolicyDefinition where
  mode : ApprovalMode
  matchCriteria : PolicyMatch := {}
  steps : List PolicyStepDef
  deriving DecidableEq

structure PolicyRow where
  publicId : String
  name : String
  subjectType : String
  isActive : Bool
  currentVersion : Int
  createdAt : Timestamp
  updatedAt : Timestamp
  deriving DecidableEq

structure PolicyVersionRow where
  id : Uuid
  definition : PolicyDefinition
  deriving DecidableEq

structure ApprovalPolicyDto where
  id : String
  name : String
  subjectType : String
  isActive : Bool
  currentVersion : Int
  definition : PolicyDefinition
  createdAt : Timestamp
  updatedAt : Timestamp
  deriving DecidableEq

structure ResolvedStepSnapshot where
  order : Int
  approverRole : Option String
  assigneeUserIds : List Uuid
  slaSeconds : Option Int
  escalateToRole : Option String
  deriving DecidableEq

structure RoutingSnapshot where
  policyPublicId : String
  policyName : String
  policyVersion : Int
  mode : ApprovalMode
  matchCriteria : PolicyMatch
  steps : List ResolvedStepSnapshot
  rationale : String
  deriving DecidableEq

inductive ApprovalStatus
  | pending | approved | rejected | cancelled | escalated
  deriving DecidableEq

structure ApprovalRow where
  publicId : String
  subjectType : String
  subjectId : String
  status : ApprovalStatus
  requesterUserId : Uuid
  requesterRole : Option String
  amountMinor : Option Int
  currency : Option String
  category : Option String
  departmentId : Option Uuid
  policyId : Uuid
  policyVersion : Int
  policyVersionId : Uuid
  routingSnapshot : RoutingSnapshot
  mode : ApprovalMode
  currentStep : Int
  title : String
  summary : Option String
  temporalWorkflowId : String
  decidedAt : Option Timestamp := none
  decidedBy : Option Uuid := none
  decisionNote : Option String := none
  createdAt : Timestamp
  updatedAt : Timestamp
  deriving DecidableEq

inductive StepStatus
  | pending | active | approved | rejected | skipped | escalated
  deriving DecidableEq

structure StepRow where
  status : StepStatus
  approverRole : Option String
  assigneeUserIds : List Uuid
  slaSeconds : Option Int
  escalateToRole : Option String
  escalatedAt : Option Timestamp := none
  decidedAt : Option Timestamp := none
  decidedBy : Option Uuid := none
  deriving DecidableEq

inductive DecisionKind
  | approve | reject | escalate
  deriving DecidableEq

/-- A row of the append-only decision log. -/
structure DecisionRow where
  approvalId : Uuid
  stepOrder : Int
  decision : DecisionKind
  actorUserId : Uuid
  onBehalfOf : Uuid
  comment : Option String
  idempotencyKey : Option String
  deriving DecidableEq

/-- Without an approval the delegation is for all of them. -/
structure DelegationRow where
  publicId : String
  fromUserId : Uuid
  toUserId : Uuid
  approvalId : Option Uuid
  endsAt : Option Timestamp
  revokedAt : Option Timestamp := none
  deriving DecidableEq

structure ApprovalStepDto where
  order : Int
  status : StepStatus
  approverRole : Option String
  assigneeUserIds : List String
  slaSeconds : Option Int
  escalateToRole : Option String
  escalatedAt : Option Timestamp
  decidedAt : Option Timestamp
  decidedBy : Option String
  deriving DecidableEq

structure ApprovalDto where
  id : String
  subjectType : String
  subjectId : String
  status : ApprovalStatus
  requesterUserId : String
  amountMinor : Option Int
  currency : Option String
  category : Option String
  title : String
  summary : Option String
  mode : ApprovalMode
  currentStep : Int
  policyId : String
  policyVersion : Int
  routingSnapshot : RoutingSnapshot
  steps : List ApprovalStepDto
  decidedAt : Option Timestamp
  decidedBy : Option String
  decisionNote : Option String
  createdAt : Timestamp
  updatedAt : Timestamp
  deriving DecidableEq

structure DelegationDto where
  id : String
  fromUserId : String
  toUserId : String
  approvalId : Option String
  startsAt : Timestamp
  endsAt : Option Timestamp
  revokedAt : Option Timestamp
  deriving DecidableEq

structure MemberRow where
  userId : Uuid
  systemKey : Option String
  revokedAt : Option Timestamp

/-- A row of the idempotency table. -/
structure StoredResponse where
  responseStatus : Int
  responseBody : ApprovalDto

structure Db where
  members : List MemberRow
  policies : Table Uuid PolicyRow
  policyVersions : Table (Uuid × Int) PolicyVersionRow
  approvals : Table Uuid ApprovalRow
  steps : Table (Uuid × Int) StepRow
  decisions : List DecisionRow
  delegations : Table Uuid DelegationRow
  idempotency : Table (String × String) StoredResponse

def Db.empty : Db := ⟨[], .empty, .empty, .empty, .empty, [], .empty, .empty⟩

/-- What a statement locks: a row, or the place of a row in a unique index. -/
inductive RowKey
  | policy (id : Uuid)
  | policyVersion (policyId : Uuid) (version : Int)
  | approval (id : Uuid)
  | subject (subjectType subjectId : String)
  | step (approvalId : Uuid) (order : Int)
  | decision (approvalId : Uuid) (idempotencyKey : String)
  | delegation (id : Uuid)
  | idempotency (scope key : String)
  deriving DecidableEq

abbrev Tx := Prog Db RowKey AppError

inductive Permission
  | approvalRead | approvalDecide | approvalPolicyManage
  deriving DecidableEq

/-- What a handler takes from outside its body and its tables. `authorize` is the decision of
the membership tables, `fresh` gives the UUIDs the request draws and `lower` is the `lower` of
the database's locale. -/
structure RequestCtx extends Finance.Caller where
  orgPublicId : String
  onBehalfOf : Uuid
  authorize : Permission → Except AppError Unit
  idempotencyKey : Option String
  lower : String → String

inductive Response
  | approval (status : Nat) (dto : ApprovalDto)
  | delegation (status : Nat) (dto : DelegationDto)
  | policy (status : Nat) (dto : ApprovalPolicyDto)
  | seeded
  deriving DecidableEq

end Noxara.Approvals
