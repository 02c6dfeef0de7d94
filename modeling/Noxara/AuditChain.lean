import Mathlib.Data.Prod.Lex
import Noxara.TransactionRows
import Noxara.JsonValues
import Noxara.PublicIds
import Noxara.TableRows
import Noxara.HashChain

/-! The audit log. A trigger chains each inserted row to the latest row of its organization and month; the
verifier recomputes the digests and looks for each row's predecessor by sorting. -/
namespace Noxara.Governance

open Transaction
open Finance (Uuid Timestamp)

/-- What the database and the `chrono` crate make of values. -/
class AuditFormats where
  uuidText : Uuid → String
  timestampText : Timestamp → String
  /-- How the verifier's message shows an instant. -/
  timestampDisplay : Timestamp → String
  jsonText : Json → String
  /-- `YYYY-MM`, in UTC. -/
  monthText : Timestamp → String
  /-- SHA-256, in hexadecimal. -/
  digest : String → String
  hashTextExtended : String → Int

/-- The columns that an `INSERT` gives. -/
structure AuditEntry where
  orgId : Uuid
  actorUserId : Uuid
  actorOnBehalfOf : Uuid
  actorIsAi : Bool
  action : String
  resourceType : String
  resourceId : String
  metadata : Json

structure AuditRow extends AuditEntry where
  createdAt : Timestamp
  partitionKey : String
  prevHash : String
  contentHash : String

abbrev AuditLog := Table Uuid AuditRow

inductive Lock
  | advisory (key : Int)
  | entry (id : Uuid)
  deriving DecidableEq

inductive AuditError
  | db (message : String)
  deriving DecidableEq

abbrev Tx (α : Type) := Prog AuditLog Lock AuditError α

/-- Rows are compared by instant and id. -/
def orderKey (r : Uuid × AuditRow) : Int ×ₗ Nat := toLex (r.2.createdAt, r.1)

/-- The rows of an organization's month, as they lie in the table. -/
def partitionRows (orgId : Uuid) (key : String) (s : AuditLog) : List (Uuid × AuditRow) :=
  s.rows.filter fun r => r.2.orgId = orgId ∧ r.2.partitionKey = key

section
variable [AuditFormats]
open AuditFormats

def payloadText (prevHash : String) (id : Uuid) (e : AuditEntry) (createdAt : Timestamp) : String :=
  prevHash ++ "|" ++ uuidText id ++ "|" ++ uuidText e.orgId ++ "|" ++ uuidText e.actorUserId ++ "|" ++
    uuidText e.actorOnBehalfOf ++ "|" ++ (if e.actorIsAi then "1" else "0") ++ "|" ++ e.action ++ "|" ++
    e.resourceType ++ "|" ++ e.resourceId ++ "|" ++ jsonText e.metadata ++ "|" ++ timestampText createdAt

def advisoryKey (orgId : Uuid) (key : String) : Int := hashTextExtended (uuidText orgId ++ ":" ++ key)

/-- What the trigger makes of a new row, from what the transaction sees under the advisory lock. -/
def companyosAuditHashChain (id : Uuid) (e : AuditEntry) (createdAt : Timestamp) (v : AuditLog) : AuditRow :=
  let key := monthText createdAt
  let prev := ((HashChain.latest orderKey (partitionRows e.orgId key v)).map (·.2.contentHash)).getD ""
  ⟨e, createdAt, key, prev, digest (payloadText prev id e createdAt)⟩

/-- A transaction that appends: the organization it is bound to, the instant it started, and its rows. -/
structure Appending where
  orgId : Uuid
  startedAt : Timestamp
  entries : List (Uuid × AuditEntry)

/-- `INSERT` with the trigger; the policy lets rows of the bound organization pass. -/
def insertAuditEntry (orgId : Uuid) (startedAt : Timestamp) (id : Uuid) (e : AuditEntry) : Tx Unit :=
  .execute (fun _ => [.advisory (advisoryKey e.orgId (monthText startedAt)), .entry id])
    (fun v =>
      if e.orgId ≠ orgId then
        .error (.db "new row violates row-level security policy for table \"audit_entry\"")
      else if id ∈ v.keys then
        .error (.db "duplicate key value violates unique constraint \"audit_entry_pkey\"")
      else .ok ())
    fun v s => s.insert id (companyosAuditHashChain id e startedAt v)

def Appending.body (a : Appending) : Tx Unit :=
  Prog.each (fun r => insertAuditEntry a.orgId a.startedAt r.1 r.2) a.entries

/-- Insert one audit row, in a transaction of its own. -/
def auditMutation (startedAt : Timestamp) (id orgId actor : Uuid) (action resourceType resourceId : String)
    (metadata : Json) : Appending :=
  ⟨orgId, startedAt, [(id, ⟨orgId, actor, actor, false, action, resourceType, resourceId, metadata⟩)]⟩

structure PartitionCheck where
  rowsChecked : Int
  ok : Bool
  firstBreak : Option String

structure AuditVerifyResponse where
  ok : Bool
  partitionsChecked : Int
  rowsChecked : Int
  firstBreak : Option String
  deriving DecidableEq

/-- A row as the verifier's query answers it. -/
structure VerifyRow where
  id : Uuid
  createdAt : Timestamp
  contentOk : Bool
  chainOk : Bool

def verifyRow (x : (Uuid × AuditRow) × String) : VerifyRow :=
  let row := x.1.2
  { id := x.1.1
    createdAt := row.createdAt
    contentOk := row.contentHash = digest (payloadText row.prevHash x.1.1 row.toAuditEntry row.createdAt)
    chainOk := row.prevHash = x.2 }

/-- The rows in order, each against the stored digest of the one before it. -/
def verifySql (orgId : Uuid) (key : String) (s : AuditLog) : List VerifyRow :=
  (HashChain.lag (·.2.contentHash) "" (HashChain.ascending orderKey (partitionRows orgId key s))).map verifyRow

def checkPartition (orgId : Uuid) (key : String) (s : AuditLog) : PartitionCheck :=
  let rows := verifySql orgId key s
  match rows.find? fun r => !r.contentOk || !r.chainOk with
  | some r =>
    let reason := if !r.contentOk then "content_hash mismatch" else "prev_hash chain break"
    ⟨rows.length, false, some s!"{reason} at entry {uuidText r.id} ({timestampDisplay r.createdAt})"⟩
  | none => ⟨rows.length, true, none⟩

def verifyPartition (orgId : Uuid) (key : String) (s : AuditLog) : AuditVerifyResponse :=
  let check := checkPartition orgId key s
  ⟨check.ok, 1, check.rowsChecked, check.firstBreak⟩

/-- `SELECT DISTINCT partition_key .. ORDER BY partition_key`. -/
def partitionsOf (orgId : Uuid) (s : AuditLog) : List String :=
  (((s.values.filter (·.orgId = orgId)).map (·.partitionKey)).dedup).insertionSort (· ≤ ·)

/-- One partition more in the answer; the first break stays. -/
def AuditVerifyResponse.add (acc : AuditVerifyResponse) (key : String) (check : PartitionCheck) :
    AuditVerifyResponse :=
  let rowsChecked := acc.rowsChecked + check.rowsChecked
  if !check.ok && acc.ok then
    ⟨false, acc.partitionsChecked, rowsChecked, check.firstBreak.map fun m => s!"[{key}] {m}"⟩
  else { acc with rowsChecked }

def verifyAll (orgId : Uuid) (s : AuditLog) : AuditVerifyResponse :=
  let partitions := partitionsOf orgId s
  partitions.foldl (fun acc key => acc.add key (checkPartition orgId key s)) ⟨true, partitions.length, 0, none⟩

end

end Noxara.Governance
