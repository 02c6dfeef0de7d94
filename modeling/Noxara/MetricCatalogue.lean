import Noxara.AuthzDecisions
import Noxara.FinanceStatements

/-! Analytics. The catalogue of governed metrics, the definition of a report, and the check that a report passes
before it is saved or run. -/
namespace Noxara.Analytics

open Finance (Uuid AppError PublicId Formats validation)

inductive MeasureKind
  | sum | count | avg
  deriving DecidableEq

/-- The fact table behind a metric. -/
inductive FactSource
  | dealStageChange | invoiceLifecycle | payment | expense | taskLifecycle | timeEntry | aiUsage | apiRequest
  | invoiceIssued
  deriving DecidableEq

namespace FactSource

def postgresTable : FactSource → String
  | dealStageChange => "analytics_fact_deal_stage_change"
  | invoiceLifecycle => "analytics_fact_invoice_lifecycle"
  | payment => "analytics_fact_payment"
  | expense => "analytics_fact_expense"
  | taskLifecycle => "analytics_fact_task_lifecycle"
  | timeEntry => "analytics_fact_time_entry"
  | aiUsage => "analytics_fact_ai_usage"
  | apiRequest => "analytics_fact_api_request"
  | invoiceIssued => "analytics_fact_invoice_issued"

/-- The columns that the migrations give the table. -/
def columns : FactSource → List String
  | dealStageChange => ["event_id", "org_id", "deal_id", "from_stage", "to_stage", "amount_minor", "currency",
      "occurred_at", "ingested_at"]
  | invoiceLifecycle => ["event_id", "org_id", "invoice_id", "lifecycle_event", "amount_minor", "currency",
      "occurred_at", "ingested_at"]
  | payment => ["event_id", "org_id", "payment_id", "invoice_id", "amount_minor", "currency", "occurred_at",
      "ingested_at"]
  | expense => ["event_id", "org_id", "expense_id", "lifecycle_event", "amount_minor", "currency", "category",
      "occurred_at", "ingested_at"]
  | taskLifecycle => ["event_id", "org_id", "task_id", "lifecycle_event", "project_id", "status", "occurred_at",
      "ingested_at"]
  | timeEntry => ["event_id", "org_id", "time_entry_id", "timesheet_id", "project_id", "membership_user_id",
      "minutes", "billable_minutes", "lifecycle_event", "occurred_at", "ingested_at"]
  | aiUsage => ["event_id", "org_id", "usage_kind", "tokens", "model", "occurred_at", "ingested_at"]
  | apiRequest => ["event_id", "org_id", "route", "method", "status_code", "duration_ms", "occurred_at",
      "ingested_at"]
  | invoiceIssued => ["event_id", "org_id", "invoice_id", "amount_minor", "currency", "issued_at", "ingested_at"]

def drillRouteTemplate : FactSource → String
  | dealStageChange => "/sales/deals/\x7brecord_id\x7d"
  | invoiceLifecycle | invoiceIssued => "/finance/invoices/\x7brecord_id\x7d"
  | payment => "/finance/invoices/\x7brecord_id\x7d"
  | expense => "/finance/expenses/\x7brecord_id\x7d"
  | taskLifecycle => "/ops/tasks/\x7brecord_id\x7d"
  | timeEntry => "/ops/timesheets/\x7brecord_id\x7d"
  | aiUsage => "/settings/ai"
  | apiRequest => "/insights"

def recordIdColumn : FactSource → String
  | dealStageChange => "deal_id"
  | invoiceLifecycle | invoiceIssued => "invoice_id"
  | payment => "payment_id"
  | expense => "expense_id"
  | taskLifecycle => "task_id"
  | timeEntry => "time_entry_id"
  | aiUsage => "usage_kind"
  | apiRequest => "route"

end FactSource

structure MetricDefinition where
  name : String
  fact : FactSource
  measure : MeasureKind
  measureField : String
  dimensions : List String
  requiredPermission : String
  drillRoute : String

def MetricDefinition.over (name : String) (fact : FactSource) (measure : MeasureKind) (measureField : String)
    (dimensions : List String) (requiredPermission : String) : MetricDefinition :=
  ⟨name, fact, measure, measureField, dimensions, requiredPermission, fact.drillRouteTemplate⟩

def defs : List MetricDefinition := [
  .over "pipeline_amount" .dealStageChange .sum "amount_minor" ["to_stage", "currency"] "sales.deal.read",
  .over "revenue_issued" .invoiceLifecycle .sum "amount_minor" ["currency", "lifecycle_event"]
    "finance.invoice.read",
  .over "cash_collected" .payment .sum "amount_minor" ["currency"] "finance.invoice.read",
  .over "expenses_total" .expense .sum "amount_minor" ["category", "currency"] "finance.expense.read",
  .over "task_completions" .taskLifecycle .count "event_id" ["status", "project_id"] "operations.task.read",
  .over "ai_tokens_used" .aiUsage .sum "tokens" ["usage_kind", "model"] "ai.insights.read",
  .over "headcount_proxy" .taskLifecycle .count "event_id" ["project_id"] "operations.task.read",
  .over "billable_minutes" .timeEntry .sum "billable_minutes" ["project_id", "membership_user_id"]
    "operations.timesheet.read",
  .over "capacity_booked_minutes" .timeEntry .sum "minutes" ["project_id", "membership_user_id"]
    "operations.timesheet.read"]

def getMetric (name : String) : Option MetricDefinition := defs.find? fun m => m.name = name

def MetricDefinition.Declares (metric : MetricDefinition) (column : String) : Prop :=
  column = metric.measureField ∨ column = metric.fact.recordIdColumn ∨ column ∈ metric.dimensions ∨
    column = "occurred_at"

instance (metric : MetricDefinition) (column : String) : Decidable (metric.Declares column) := by
  unfold MetricDefinition.Declares
  infer_instance

theorem declared_columns {name column : String} {metric : MetricDefinition} (hmetric : getMetric name = some metric)
    (h : metric.Declares column) : column ∈ metric.fact.columns := by
  have hdefs : ∀ m ∈ defs, m.measureField ∈ m.fact.columns ∧ m.fact.recordIdColumn ∈ m.fact.columns ∧
      (∀ d ∈ m.dimensions, d ∈ m.fact.columns) ∧ "occurred_at" ∈ m.fact.columns := by decide
  obtain ⟨hfield, hrecord, hdimensions, hoccurred⟩ := hdefs metric (List.mem_of_find?_eq_some hmetric)
  rcases h with rfl | rfl | h | rfl
  · exact hfield
  · exact hrecord
  · exact hdimensions column h
  · exact hoccurred

structure QueryFilter where
  field : String
  op : String
  value : Json

structure ReportDefinition where
  orgId : Option String
  region : Option String
  metric : String
  dimensions : List String
  filters : List QueryFilter
  groupBy : List String
  visualization : String

structure ValidatedQuery where
  org : Uuid
  metric : MetricDefinition
  dimensions : List String
  filters : List QueryFilter
  groupBy : List String
  visualization : String

section
variable [Formats]

def parseOrg (orgId : Option String) : Except AppError Uuid :=
  match orgId.filter (· ≠ "") with
  | none => .error (validation "analytics query rejected: org_id predicate is required")
  | some raw =>
    match PublicId.fromStr raw with
    | .error _ => .error (validation "invalid org_id")
    | .ok id => if id.kind = .org then .ok id.uuid else .error (validation "org_id must be org_…")

/-- Reject queries without an org_id predicate. -/
def validateQuery (definition : ReportDefinition) : Except AppError ValidatedQuery :=
  match parseOrg definition.orgId with
  | .error e => .error e
  | .ok org =>
    match getMetric definition.metric with
    | none => .error (validation s!"unknown governed metric '{definition.metric}'")
    | some metric =>
      match definition.dimensions.find? fun d => d ∉ metric.dimensions ∧ d ≠ "occurred_at" with
      | some d => .error (validation s!"dimension '{d}' is not defined for metric {metric.name}")
      | none => .ok ⟨org, metric, definition.dimensions, definition.filters, definition.groupBy,
          definition.visualization⟩

/-- The caller of a report: its tenant, the region of the tenant, and the check of a region against it. -/
structure Caller where
  orgId : Uuid
  home : String
  regionGuard : Option String → Except AppError Unit

def validateQueryForTenant (caller : Caller) (definition : ReportDefinition) : Except AppError ValidatedQuery :=
  match validateQuery definition with
  | .error e => .error e
  | .ok validated => (caller.regionGuard definition.region).map fun _ => validated

def validateDefinition (caller : Caller) (definition : ReportDefinition) : Except AppError ReportDefinition :=
  let expected := (PublicId.mk .org caller.orgId).asStr
  if definition.orgId.any (· ≠ expected) then
    .error ⟨.forbidden, "report org_id does not match authenticated tenant"⟩
  else
    let definition := { definition with
      orgId := some expected
      region := definition.region.or (some caller.home) }
    (validateQueryForTenant caller definition).map fun _ => definition

/-- What `validate_query` accepts: the dimensions are checked, the columns to group by are taken as they come. -/
theorem validateQuery_ok {definition : ReportDefinition} {v : ValidatedQuery}
    (h : validateQuery definition = .ok v) : getMetric definition.metric = some v.metric ∧
      v.dimensions = definition.dimensions ∧ v.groupBy = definition.groupBy ∧
      ∀ d ∈ v.dimensions, v.metric.Declares d := by
  unfold validateQuery at h
  cases horg : parseOrg definition.orgId with
  | error e =>
    rw [horg] at h
    cases h
  | ok org =>
    cases hmetric : getMetric definition.metric with
    | none =>
      rw [horg, hmetric] at h
      cases h
    | some metric =>
      rw [horg, hmetric] at h
      dsimp only at h
      cases hbad : definition.dimensions.find? fun d => d ∉ metric.dimensions ∧ d ≠ "occurred_at" with
      | some d =>
        rw [hbad] at h
        cases h
      | none =>
        rw [hbad] at h
        cases h
        refine ⟨rfl, rfl, rfl, ?_⟩
        intro d hd
        have hgood := List.find?_eq_none.mp hbad d hd
        simp only [decide_eq_true_eq, not_and_or, not_not] at hgood
        exact .inr (.inr hgood)

/-- A definition that is saved or run has been accepted as it stands. -/
theorem validateDefinition_ok {caller : Caller} {definition saved : ReportDefinition}
    (h : validateDefinition caller definition = .ok saved) :
    saved.groupBy = definition.groupBy ∧ ∃ v, validateQuery saved = .ok v := by
  unfold validateDefinition at h
  dsimp only at h
  split_ifs at h
  · unfold validateQueryForTenant at h
    cases hv : validateQuery { definition with
        orgId := some (PublicId.mk .org caller.orgId).asStr
        region := definition.region.or (some caller.home) } with
    | error e =>
      rw [hv] at h
      cases h
    | ok v =>
      rw [hv] at h
      dsimp only at h
      cases hregion : caller.regionGuard (definition.region.or (some caller.home)) with
      | error e =>
        rw [hregion] at h
        cases h
      | ok u =>
        rw [hregion] at h
        cases h
        exact ⟨rfl, v, hv⟩

end

end Noxara.Analytics
