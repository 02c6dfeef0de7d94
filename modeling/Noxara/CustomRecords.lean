import Noxara.ScriptSandbox
import Noxara.TransactionSerial

/-! Records of custom entities: their values are checked against the fields of the published entity, completed by its
formulas and changed by its scripts before they are saved. -/
namespace Noxara.Custom

open Transaction Sandbox
open Finance (Uuid AppError internal notFound validation conflict)
open Words (Build)

inductive FieldType
  | text | number | money | date | bool | select | ref | formula
  deriving DecidableEq

structure FieldDef where
  name : String
  fieldType : FieldType
  required : Bool
  options : Option (List String)
  formula : Option String

def FormulaError.text : FormulaError → String
  | .parse detail => s!"formula parse error: {detail}"
  | .runtime detail => s!"formula runtime error: {detail}"
  | .escape => "formula attempted network/host escape"

def Sandbox.SandboxError.text : SandboxError → String
  | .cpuLimit n => s!"script exceeded CPU operation limit ({n})"
  | .memoryLimit n => s!"script exceeded memory limit ({n} bytes)"
  | .timeLimit => "script exceeded wall-clock time limit"
  | .deniedHost name => s!"denied host function: {name}"
  | .runtime detail => s!"script error: {detail}"

/-- How a handler leaves its transaction without committing; a script that counts past its counter is not followed. -/
inductive Exit
  | error (e : AppError)
  | panicked
  | unfinished

def refuse {α : Type} (detail : String) : Except AppError α := .error (validation detail)

def validateMoney (v : Json) (name : String) : Except AppError Unit :=
  match v with
  | .object obj =>
    match v.get "amount_minor" with
    | none => refuse s!"field '{name}' missing amount_minor"
    | some amount =>
      if amount.asI64.isNone then refuse s!"field '{name}' amount_minor must be an integer (no floats)"
      else
        match (v.get "currency").bind Json.asStr with
        | none => refuse s!"field '{name}' currency must be a string"
        | some currency =>
          if currency.utf8ByteSize ≠ 3 then refuse s!"field '{name}' currency must be a 3-letter code"
          else if obj.any fun m => m.1 ≠ "amount_minor" ∧ m.1 ≠ "currency" then
            refuse s!"field '{name}' money object may only contain amount_minor and currency"
          else .ok ()
  | _ => refuse s!"field '{name}' must be \x7bamount_minor: i64, currency: String\x7d"

/-- The value of a field, if it is there and not null. -/
def present (values : Values) (name : String) : Option Json := (values.get name).filter (· ≠ .null)

def FieldDef.check (f : FieldDef) (v : Json) : Except AppError Unit :=
  match f.fieldType with
  | .text | .date | .ref => if v.asStr.isSome then .ok () else refuse s!"field '{f.name}' must be a string"
  | .number => if v.asI64.isSome then .ok () else refuse s!"field '{f.name}' must be an integer"
  | .bool => if v.asBool.isSome then .ok () else refuse s!"field '{f.name}' must be a boolean"
  | .select =>
    match v.asStr with
    | none => refuse s!"field '{f.name}' must be a string option"
    | some s =>
      if f.options.any fun opts => s ∉ opts then refuse s!"field '{f.name}' value not in options" else .ok ()
  | .money => validateMoney v f.name
  | .formula => .ok ()

def FieldDef.validate (f : FieldDef) (values : Values) : Except AppError Unit :=
  if f.fieldType = .formula then .ok ()
  else
    match present values f.name with
    | none => if f.required then refuse s!"field '{f.name}' is required" else .ok ()
    | some v => f.check v

def validateValues (fields : List FieldDef) (values : Values) : Except AppError Unit := do
  match values.keys.find? fun key => ∀ f ∈ fields, f.name ≠ key with
  | some key => refuse s!"unknown field '{key}'"
  | none => fields.forM fun f => f.validate values

section
variable [CharTables]

def applyFormulas (b : Build) : List FieldDef → Values → Run Values
  | [], values => pure values
  | f :: fields, values =>
    match f.fieldType, f.formula with
    | .formula, some expr => do
      let v ← evalFormula b expr values
      applyFormulas b fields (values.insert f.name v)
    | _, _ => applyFormulas b fields values

/-- What is saved of the values, before the scripts. -/
def prepare (b : Build) (fields : List FieldDef) (values : Values) : Except Exit Values := do
  (validateValues fields values).mapError .error
  match (applyFormulas b fields values).run with
  | none => .error .panicked
  | some (.error e) => .error (.error (validation s!"formula error: {e.text}"))
  | some (.ok values) => .ok values

end

/-- An entity definition; its slug is its own. -/
structure EntityRow where
  published : Bool
  deleted : Bool
  fields : List FieldDef

structure ScriptRow where
  source : String
  enabled : Bool

structure RecordRow where
  entitySlug : String
  values : Values
  createdBy : Uuid
  updatedBy : Uuid
  version : Int
  deleted : Bool

/-- Entities are kept by slug, scripts by slug and hook. -/
structure Db where
  entities : Table String EntityRow
  scripts : Table (String × String) ScriptRow
  records : Table Uuid RecordRow

inductive Lock
  | record (id : Uuid)
  deriving DecidableEq

abbrev Tx := Prog Db Lock Exit

structure CustomRecordDto where
  id : Uuid
  entitySlug : String
  values : Values
  version : Int

def RecordRow.dto (r : RecordRow) (id : Uuid) : CustomRecordDto := ⟨id, r.entitySlug, r.values, r.version⟩

/-- A request: its actor, what the permissions of the actor say about writing, the clocks that its two scripts see, and
how a script is read. -/
structure RecordCtx where
  build : Build
  actor : Uuid
  permitted : Except AppError Unit
  parseProgram : String → Except SandboxError (List Stmt)
  beforeClock : Clock
  afterClock : Clock

def Db.fieldsOf (s : Db) (slug : String) : Option (List FieldDef) :=
  ((s.entities.find? slug).filter fun e => e.published ∧ ¬e.deleted).map (·.fields)

def loadPublishedEntity (slug : String) : Tx (List FieldDef) := do
  let row ← .query (·.fieldsOf slug)
  .okOr row (.error (notFound "published entity"))

def Db.scriptOf (s : Db) (slug hook : String) : Option String :=
  ((s.scripts.find? (slug, hook)).filter (·.enabled)).map (·.source)

def loadScript (slug hook : String) : Tx (Option String) := .query (·.scriptOf slug hook)

def runScript (ctx : RecordCtx) (clock : Clock) (source : String) (values : Values) : Except Exit Values :=
  match ctx.parseProgram source with
  | .error e => .error (.error (validation s!"script parse failed: {e.text}"))
  | .ok program =>
    match execute .default clock program (.new values Limits.default.maxBytes) with
    | (.ok (), m) => .ok m.state.host.values
    | (.error (.error e), _) => .error (.error (validation s!"script failed (fail-closed): {e.text}"))
    | (.error .panics, _) => .error .panicked
    | (.error .unfinished, _) => .error .unfinished

def beforeSave (ctx : RecordCtx) (source : Option String) (values : Values) : Except Exit Values :=
  match source with
  | none => .ok values
  | some source => runScript ctx ctx.beforeClock source values

def Db.withRecord (s : Db) (id : Uuid) (f : RecordRow → RecordRow) : Db := { s with records := s.records.modify id f }

def afterSave (ctx : RecordCtx) (slug : String) (id : Uuid) (values : Values) : Tx Values := do
  let source ← loadScript slug "after_save"
  match source with
  | none => return values
  | some source => do
    let values ← .ofExcept (runScript ctx ctx.afterClock source values)
    .execute (fun _ => [.record id]) (fun _ => .ok ()) fun _ s => s.withRecord id fun r => { r with values := values }
    return values

def insertRecord (id : Uuid) (row : RecordRow) : Tx Unit :=
  .execute (fun _ => [.record id])
    (fun v => if (v.records.find? id).isSome then
      .error (.error (internal "duplicate key value violates unique constraint \"custom_record_pkey\"")) else .ok ())
    fun _ s => { s with records := s.records.insert id row }

section
variable [CharTables]

def createRecord (ctx : RecordCtx) (id : Uuid) (slug : String) (body : Values) : Tx CustomRecordDto := do
  .ofExcept (ctx.permitted.mapError .error)
  let fields ← loadPublishedEntity slug
  let values ← .ofExcept (prepare ctx.build fields body)
  let source ← loadScript slug "before_save"
  let values ← .ofExcept (beforeSave ctx source values)
  insertRecord id ⟨slug, values, ctx.actor, ctx.actor, 1, false⟩
  let values ← afterSave ctx slug id values
  return ⟨id, slug, values, 1⟩

def Db.liveRecord (s : Db) (slug : String) (id : Uuid) : Option RecordRow :=
  (s.records.find? id).filter fun r => r.entitySlug = slug ∧ ¬r.deleted

def fetchForUpdate (slug : String) (id : Uuid) : Tx RecordRow := do
  let row ← .queryForUpdate (fun _ => [.record id]) (·.liveRecord slug id)
  .okOr row (.error (notFound "record"))

/-- The members of the body over those that are there. -/
def merge (values body : Values) : Values := body.entries.foldl (fun m e => m.insert e.1 e.2) values

/-- `UPDATE .. WHERE version = $7`, and whether it found its row. -/
def saveVersion (ctx : RecordCtx) (slug : String) (id : Uuid) (expected : Int) (values : Values) : Tx Unit := do
  let found ← .executeReturning (fun _ => [.record id])
    (fun v =>
      match (v.liveRecord slug id).filter (·.version = expected) with
      | none => .ok false
      | some r =>
        if r.version < 2147483647 then .ok true else .error (.error (internal "integer out of range")))
    fun v s => if ((v.liveRecord slug id).filter (·.version = expected)).isSome then
      s.withRecord id fun r => { r with values := values, updatedBy := ctx.actor, version := r.version + 1 } else s
  .require found (.error (conflict s!"version mismatch: expected {expected}, current changed concurrently"))

/-- `ifMatch` is the version that the header names, if it is there and an integer. -/
def updateRecord (ctx : RecordCtx) (slug : String) (id : Uuid) (ifMatch : Option Int) (body : Values) :
    Tx CustomRecordDto := do
  .ofExcept (ctx.permitted.mapError .error)
  let expected ← .okOr ifMatch (.error (validation "If-Match header with integer version is required"))
  let fields ← loadPublishedEntity slug
  let existing ← fetchForUpdate slug id
  .require (expected = existing.version)
    (.error (conflict s!"version mismatch: expected {expected}, current {existing.version}"))
  let values ← .ofExcept (prepare ctx.build fields (merge existing.values body))
  let source ← loadScript slug "before_save"
  let values ← .ofExcept (beforeSave ctx source values)
  saveVersion ctx slug id expected values
  let _ ← afterSave ctx slug id values
  let row ← .query fun v => v.records.find? id
  let row ← .okOr row (.error (internal "no rows returned by a query that expected to return at least one row"))
  return row.dto id

def deleteRecord (ctx : RecordCtx) (slug : String) (id : Uuid) : Tx CustomRecordDto := do
  .ofExcept (ctx.permitted.mapError .error)
  let _ ← loadPublishedEntity slug
  let row ← fetchForUpdate slug id
  .execute (fun _ => [.record id]) (fun _ => .ok ())
    fun _ s => s.withRecord id fun r =>
      if r.entitySlug = slug ∧ ¬r.deleted then { r with deleted := true, updatedBy := ctx.actor } else r
  return row.dto id

inductive RecordOp
  | create (ctx : RecordCtx) (id : Uuid) (slug : String) (body : Values)
  | update (ctx : RecordCtx) (slug : String) (id : Uuid) (ifMatch : Option Int) (body : Values)
  | delete (ctx : RecordCtx) (slug : String) (id : Uuid)

def RecordOp.body : RecordOp → Tx CustomRecordDto
  | create ctx id slug body => createRecord ctx id slug body
  | update ctx slug id ifMatch body => updateRecord ctx slug id ifMatch body
  | delete ctx slug id => deleteRecord ctx slug id

end

end Noxara.Custom
