import Noxara.MetricCatalogue

/-! The statement that a report becomes, and what it reads. The database runs a text: a column to group by is spliced
into it as it was given. -/
namespace Noxara.Analytics

open Finance (Uuid Timestamp AppError PublicId Formats InI64 canonicalFormats)
open Authz (TimeFormats canonicalTimeFormats Principal isAllowed)

inductive Cell
  | null
  | uuid (id : Uuid)
  | int (n : Int)
  | text (s : String)
  | timestamp (t : Timestamp)
  deriving DecidableEq

def Cell.asInt : Cell → Option Int
  | int n => some n
  | _ => none

def Cell.asTimestamp : Cell → Option Timestamp
  | timestamp t => some t
  | _ => none

/-- A row, by the names of its columns. -/
abbrev Row := String → Cell

/-- The rows that the transaction of the tenant sees in each table. -/
abbrev Database := String → List Row

structure RawRow where
  dim0 : Option String
  value : Int
  recordIds : List String

/-- Postgres: a text with `$1` bound to the organisation, and the cast of a value to text. -/
structure Engine where
  run : Database → String → Uuid → Except String (List RawRow)
  castText : Cell → String

def Engine.shown (e : Engine) (c : Cell) : Option String := if c = .null then none else some (e.castText c)

def amountExpr (metric : MetricDefinition) : String :=
  match metric.measure with
  | .sum => s!"COALESCE(SUM({metric.measureField}), 0)::bigint"
  | .count => "COUNT(*)::bigint"
  | .avg => s!"COALESCE(AVG({metric.measureField}), 0)::bigint"

def amountColumns (metric : MetricDefinition) : List String :=
  match metric.measure with
  | .count => []
  | .sum | .avg => [metric.measureField]

namespace ValidatedQuery

/-- Lifecycle metrics filter to a specific event type. -/
def whereExtra (v : ValidatedQuery) : String :=
  (if v.metric.name = "revenue_issued" then " AND lifecycle_event = 'issued'" else "") ++
    if v.metric.name = "task_completions" then " AND lifecycle_event = 'completed'" else ""

def groupCols (v : ValidatedQuery) : List String := if v.groupBy = [] then v.dimensions else v.groupBy

def selectDims (v : ValidatedQuery) : String :=
  if v.groupCols = [] then "NULL::text AS dim0"
  else ", ".intercalate (v.groupCols.zipIdx.map fun x => s!"{x.1}::text AS dim{x.2}")

def joinedCols (v : ValidatedQuery) : String := ", ".intercalate v.groupCols

def groupSql (v : ValidatedQuery) : String := if v.groupCols = [] then "" else s!" GROUP BY {v.joinedCols}"

def statement (v : ValidatedQuery) (dims : String) : String :=
  s!"SELECT {dims}, {amountExpr v.metric} AS value, array_agg({v.metric.fact.recordIdColumn}::text) AS record_ids " ++
    s!"FROM {v.metric.fact.postgresTable} WHERE org_id = $1 {v.whereExtra} {v.groupSql} " ++
    "ORDER BY value DESC LIMIT 500"

/-- Several dimensions are folded into a joined label. -/
def sql (v : ValidatedQuery) : String :=
  if v.groupCols.length ≤ 1 then v.statement v.selectDims
  else v.statement s!"concat_ws('|', {v.joinedCols}) AS dim0"

/-- The identifiers that are spliced into the text. -/
def splicedColumns (v : ValidatedQuery) : List String :=
  amountColumns v.metric ++ [v.metric.fact.recordIdColumn] ++ v.groupCols

def orgRows (v : ValidatedQuery) (db : Database) : List Row :=
  (db v.metric.fact.postgresTable).filter fun r => r "org_id" = .uuid v.org

def selected (v : ValidatedQuery) (db : Database) : List Row :=
  (v.orgRows db).filter fun r =>
    (v.metric.name = "revenue_issued" → r "lifecycle_event" = .text "issued") ∧
      (v.metric.name = "task_completions" → r "lifecycle_event" = .text "completed")

end ValidatedQuery

/-- `GROUP BY`; without a column the rows are one group, even when there are none. -/
def groupRows (cols : List String) (rows : List Row) : List (List Row) :=
  if cols = [] then [rows]
  else (rows.map fun r => cols.map r).eraseDups.map fun key => rows.filter fun r => cols.map r = key

/-- The cast of an average to a whole number rounds half away from zero. -/
def roundedAverage (sum count : Int) : Int :=
  if count = 0 then 0 else sum.sign * ((2 * sum.natAbs + count) / (2 * count))

def bigint (n : Int) : Except String Int := if InI64 n then .ok n else .error "bigint out of range"

def aggregate (metric : MetricDefinition) (rows : List Row) : Except String Int :=
  let values := rows.filterMap fun r => (r metric.measureField).asInt
  match metric.measure with
  | .sum => bigint values.sum
  | .count => .ok rows.length
  | .avg => bigint (roundedAverage values.sum values.length)

/-- `concat_ws` leaves out what is null. -/
def Engine.label (e : Engine) (cols : List String) (r : Row) : Option String :=
  match cols with
  | [] => none
  | [c] => e.shown (r c)
  | _ => some ("|".intercalate (cols.filterMap fun c => e.shown (r c)))

def Engine.rawRow (e : Engine) (v : ValidatedQuery) (rows : List Row) : Except String RawRow :=
  match aggregate v.metric rows, rows.mapM fun r => e.shown (r v.metric.fact.recordIdColumn) with
  | .error message, _ => .error message
  | .ok _, none => .error "unexpected null; try decoding as an Option"
  | .ok value, some recordIds => .ok ⟨rows.head?.bind (e.label v.groupCols), value, recordIds⟩

def Engine.select (e : Engine) (v : ValidatedQuery) (db : Database) : Except String (List RawRow) :=
  ((groupRows v.groupCols (v.selected db)).mapM (e.rawRow v)).map fun rows =>
    (rows.mergeSort fun a b => b.value ≤ a.value).take 500

/-- The text of a query whose columns are columns of the table runs by its meaning. -/
def Engine.Evaluates (e : Engine) (v : ValidatedQuery) : Prop :=
  (∀ c ∈ v.groupCols, c ∈ v.metric.fact.columns) → ∀ db, e.run db v.sql v.org = e.select v db

structure QueryRow where
  dimensions : List (String × String)
  value : Int
  recordIds : List String
  drillLinks : List String

structure QueryResult where
  metric : String
  rows : List QueryRow
  filteredByPermission : Bool
  permissionDeniedEmpty : Bool
  dryRun : Bool
  freshnessAsOf : Option Timestamp
  eventuallyConsistent : Bool

def insertDimension (dimensions : List (String × String)) (k value : String) : List (String × String) :=
  if dimensions.any fun d => d.1 = k then dimensions.map fun d => if d.1 = k then (k, value) else d
  else dimensions ++ [(k, value)]

def ValidatedQuery.dimensionsOf (v : ValidatedQuery) (dim0 : Option String) : List (String × String) :=
  match dim0 with
  | none => []
  | some label =>
    match v.groupCols with
    | [] => [("_total", "all")]
    | [c] => [(c, label)]
    | cols => cols.zipIdx.foldl (fun m x => insertDimension m x.1 (((Json.splitChar '|' label)[x.2]?).getD "")) []

def ValidatedQuery.queryRow (v : ValidatedQuery) (raw : RawRow) : QueryRow where
  dimensions := v.dimensionsOf raw.dim0
  value := raw.value
  recordIds := raw.recordIds
  drillLinks := (raw.recordIds.take 20).map fun id => v.metric.drillRoute.replace "\x7brecord_id\x7d" id

def ValidatedQuery.emptyResult (v : ValidatedQuery) (denied dryRun : Bool) : QueryResult :=
  ⟨v.metric.name, [], denied, denied, dryRun, none, true⟩

def freshness (v : ValidatedQuery) (db : Database) : Option Timestamp :=
  ((db "analytics_freshness").find? fun r => r "org_id" = .uuid v.org).bind fun r =>
    (r "last_ingest_at").asTimestamp

/-- Execute a validated query. When `dryRun` is true, only returns empty rows. -/
def executeQuery [TimeFormats] (e : Engine) (db : Database) (v : ValidatedQuery) (principal : Option Principal)
    (dryRun : Bool) : Except AppError QueryResult :=
  if dryRun then .ok (v.emptyResult false true)
  else if principal.any fun p => ¬isAllowed p v.metric.requiredPermission then .ok (v.emptyResult true false)
  else
    match e.run db v.sql v.org with
    | .error message => .error ⟨.internal, message⟩
    | .ok rows => .ok ⟨v.metric.name, rows.map v.queryRow, principal.isSome, false, false, freshness v db, true⟩

/-- Every spliced identifier is declared by the metric, and the rows depend on the organisation's rows of the fact
table alone. -/
structure Confined [TimeFormats] (e : Engine) (v : ValidatedQuery) : Prop where
  declared : ∀ c ∈ v.splicedColumns, v.metric.Declares c
  rows_eq : ∀ (principal : Option Principal) (dryRun : Bool) (db db' : Database), v.orgRows db = v.orgRows db' →
    (executeQuery e db v principal dryRun).map (·.rows) = (executeQuery e db' v principal dryRun).map (·.rows)

theorem select_eq (e : Engine) {v : ValidatedQuery} {db db' : Database} (h : v.orgRows db = v.orgRows db') :
    e.select v db = e.select v db' := by
  have hselected : v.selected db = v.selected db' := by rw [ValidatedQuery.selected, h, ValidatedQuery.selected]
  rw [Engine.select, hselected, Engine.select]

theorem executeQuery_rows [TimeFormats] {e : Engine} {v : ValidatedQuery} {db db' : Database}
    (h : e.run db v.sql v.org = e.run db' v.sql v.org) (principal : Option Principal) (dryRun : Bool) :
    (executeQuery e db v principal dryRun).map (·.rows) = (executeQuery e db' v principal dryRun).map (·.rows) := by
  unfold executeQuery
  split_ifs
  · rfl
  · rfl
  · rw [h]
    cases e.run db' v.sql v.org with
    | error message => rfl
    | ok rows => rfl

theorem rows_of_run [TimeFormats] {e : Engine} {v : ValidatedQuery} {db : Database} {rows : List RawRow}
    (h : e.run db v.sql v.org = .ok rows) :
    (executeQuery e db v none false).map (·.rows) = .ok (rows.map v.queryRow) := by
  simp [executeQuery, h, Except.map]

section
variable [Formats] {definition : ReportDefinition} {v : ValidatedQuery}

theorem groupCols_declared (hv : validateQuery definition = .ok v) (h : ∀ c ∈ v.groupBy, v.metric.Declares c) :
    ∀ c ∈ v.groupCols, v.metric.Declares c := by
  obtain ⟨_, _, _, hdimensions⟩ := validateQuery_ok hv
  unfold ValidatedQuery.groupCols
  split_ifs with hnone
  · exact hdimensions
  · exact h

/-- An accepted query is confined exactly when it groups by columns that its metric declares. -/
theorem analytics_query_confined_iff [TimeFormats] (e : Engine) (hv : validateQuery definition = .ok v)
    (hengine : e.Evaluates v) : Confined e v ↔ ∀ c ∈ definition.groupBy, v.metric.Declares c := by
  obtain ⟨hmetric, _, hgroupBy, _⟩ := validateQuery_ok hv
  rw [← hgroupBy]
  constructor
  · intro h c hc
    have hcols : v.groupCols = v.groupBy := by
      unfold ValidatedQuery.groupCols
      rw [if_neg (List.ne_nil_of_mem hc)]
    have hspliced : c ∈ v.splicedColumns := by simp [ValidatedQuery.splicedColumns, hcols, hc]
    exact h.declared c hspliced
  · intro h
    have hcols := groupCols_declared hv h
    constructor
    · intro c hc
      simp only [ValidatedQuery.splicedColumns, List.mem_append, List.mem_singleton] at hc
      rcases hc with (hc | hc) | hc
      · have hfield : c = v.metric.measureField := by
          unfold amountColumns at hc
          cases hm : v.metric.measure <;> simp [hm] at hc <;> exact hc
        exact .inl hfield
      · exact .inr (.inl hc)
      · exact hcols c hc
    · intro principal dryRun db db' hagree
      refine executeQuery_rows ?_ principal dryRun
      have hcolumns : ∀ c ∈ v.groupCols, c ∈ v.metric.fact.columns :=
        fun c hc => declared_columns hmetric (hcols c hc)
      rw [hengine hcolumns db, hengine hcolumns db', select_eq e hagree]

end

def payments : String := "(SELECT count(*) FROM analytics_fact_payment)"

/-- A report on the pipeline of organisation 1, grouped as given. -/
def pipelineBy [Formats] (groupBy : List String) : ReportDefinition where
  orgId := some (PublicId.mk .org 1).asStr
  region := some "us"
  metric := "pipeline_amount"
  dimensions := []
  filters := []
  groupBy := groupBy
  visualization := "table"

def pipelineQuery (groupBy : List String) : ValidatedQuery where
  org := 1
  metric := .over "pipeline_amount" .dealStageChange .sum "amount_minor" ["to_stage", "currency"] "sales.deal.read"
  dimensions := []
  filters := []
  groupBy := groupBy
  visualization := "table"

theorem validateQuery_pipelineBy (groupBy : List String) :
    letI := canonicalFormats
    validateQuery (pipelineBy groupBy) = .ok (pipelineQuery groupBy) := rfl

def castText : Cell → String
  | .int n => toString n
  | .text s => s
  | _ => ""

/-- What the query with the subquery returns: one group, labelled by the number of payments. -/
def dealsByPayments (db : Database) : Except String (List RawRow) :=
  let rows := (pipelineQuery [payments]).selected db
  (aggregate (pipelineQuery [payments]).metric rows).map fun value =>
    if rows.isEmpty then []
    else [⟨some (toString (db "analytics_fact_payment").length), value, rows.map fun r => castText (r "deal_id")⟩]

def subqueryEngine : Engine where
  castText := castText
  run db text org :=
    if text = (pipelineQuery [payments]).sql ∧ org = (pipelineQuery [payments]).org then dealsByPayments db
    else .error "syntax error"

theorem run_subqueryEngine (db : Database) :
    subqueryEngine.run db (pipelineQuery [payments]).sql (pipelineQuery [payments]).org = dealsByPayments db := by
  simp only [subqueryEngine, and_self, if_true]

def oneDeal (paid : List Row) : Database
  | "analytics_fact_deal_stage_change" => [fun
    | "org_id" => .uuid 1
    | "deal_id" => .text "dea_1"
    | "amount_minor" => .int 10000
    | "currency" => .text "EUR"
    | _ => .null]
  | "analytics_fact_payment" => paid
  | _ => []

/-- The number of payments shows in a report on deals. -/
theorem analytics_query_reads_payments :
    letI := canonicalFormats
    letI := canonicalTimeFormats
    ∃ (v : ValidatedQuery) (db db' : Database), validateQuery (pipelineBy [payments]) = .ok v ∧
      subqueryEngine.Evaluates v ∧ (∃ c ∈ v.splicedColumns, ¬v.metric.Declares c) ∧
        v.orgRows db = v.orgRows db' ∧
      (executeQuery subqueryEngine db v none false).map (·.rows) ≠
        (executeQuery subqueryEngine db' v none false).map (·.rows) := by
  let := canonicalFormats
  let := canonicalTimeFormats
  have hcols : (pipelineQuery [payments]).groupCols = [payments] := rfl
  refine ⟨pipelineQuery [payments], oneDeal [], oneDeal [fun _ => .null], validateQuery_pipelineBy _, ?_, ?_, rfl,
    ?_⟩
  · intro hcolumns
    have hpayments := hcolumns payments (by rw [hcols]; exact List.mem_singleton_self _)
    exact absurd hpayments (by decide)
  · exact ⟨payments, by simp [ValidatedQuery.splicedColumns, hcols], by decide⟩
  · intro h
    have hnone : dealsByPayments (oneDeal []) = .ok [⟨some "0", 10000, ["dea_1"]⟩] := rfl
    have hone : dealsByPayments (oneDeal [fun _ => .null]) = .ok [⟨some "1", 10000, ["dea_1"]⟩] := rfl
    rw [rows_of_run ((run_subqueryEngine _).trans hnone), rows_of_run ((run_subqueryEngine _).trans hone)] at h
    have hlabels := congrArg (List.map (·.dimensions)) (Except.ok.inj h)
    exact absurd hlabels (by decide)

/-- The database at one query over columns of its table. -/
def plainEngine (v : ValidatedQuery) : Engine where
  castText := castText
  run db text org :=
    if text = v.sql ∧ org = v.org then Engine.select ⟨fun _ _ _ => .error "", castText⟩ v db
      else .error "syntax error"

theorem evaluates_plainEngine (v : ValidatedQuery) : (plainEngine v).Evaluates v := by
  intro _ db
  simp only [plainEngine, and_self, if_true]
  rfl

/-- The pipeline by currency reads the organisation's deals only. -/
theorem analytics_query_by_currency :
    letI := canonicalFormats
    letI := canonicalTimeFormats
    Confined (plainEngine (pipelineQuery ["currency"])) (pipelineQuery ["currency"]) := by
  let := canonicalFormats
  let := canonicalTimeFormats
  exact (analytics_query_confined_iff _ (validateQuery_pipelineBy _) (evaluates_plainEngine _)).mpr (by decide)

end Noxara.Analytics
