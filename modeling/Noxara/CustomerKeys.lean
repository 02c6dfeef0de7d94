import Noxara.EnvelopeEncryption
import Noxara.FinanceStatements
import Noxara.HashChain
import Noxara.TransactionCalls

/-! The customer-managed keys of one organization: they are provisioned, rotated and revoked while the KMS has
changes of its own. Columns that no handler reads are left out. -/
namespace Noxara.CustomerKeys

open Crypto Transaction
open Finance (Uuid Timestamp Formats AppError conflict uniqueViolation databaseError i32Max)

inductive CmkStatus
  | active | rotating | revoked
  deriving DecidableEq

structure CmkRow where
  publicId : String
  providerKeyId : String
  status : CmkStatus
  createdAt : Timestamp
  deriving DecidableEq

structure DataKeyRow where
  cmkId : Uuid
  wrappedDekB64 : List Char
  version : Int

/-- `dataKey` is the one row that an organization may have of them. -/
structure World where
  cmks : Table Uuid CmkRow
  dataKey : Option DataKeyRow
  kms : MockKms

def World.start (kms : MockKms) : World := ⟨.empty, none, kms⟩

inductive Lock
  | cmk (id : Uuid)
  | dataKey
  deriving DecidableEq

abbrev KeyTx := Prog World Lock AppError

abbrev KeyReq := Request World Lock AppError

inductive CmkAnswer
  | mutation (publicId providerKeyId status : String) (dekVersion : Int)
  | revoked (providerKeyId : String)
  deriving DecidableEq

/-- What a request brings along. `access` is what `authorize` comes to. -/
structure KeyCtx where
  orgId : Uuid
  access : Except AppError Unit
  now : Timestamp
  cmkUuid : Uuid
  draws : Draws

def cryptoError (e : CryptoError) : AppError := ⟨.internal, e.asStr⟩

def askKms {α : Type} (f : MockKms → Except CryptoError (α × MockKms)) : KeyReq α :=
  .ask fun w =>
    match f w.kms with
    | .ok (a, kms) => .ok (a, { w with kms })
    | .error e => .error (cryptoError e)

/-- The row lock of a new row keeps a second one with its id away, and its public id is made of that id. -/
def insertCmk (id : Uuid) (row : CmkRow) : KeyTx Unit :=
  .execute (fun _ => [.cmk id])
    (fun v => if (v.cmks.find? id).isSome then .error (uniqueViolation "org_cmk_pkey") else .ok ())
    fun _ s => { s with cmks := s.cmks.insert id row }

def insertDataKey (row : DataKeyRow) : KeyTx Unit :=
  .execute (fun _ => [.dataKey])
    (fun v =>
      if v.dataKey.isSome then .error (uniqueViolation "org_data_key_org_id_key")
      else if (v.cmks.find? row.cmkId).isSome then .ok ()
      else .error (databaseError
        "insert or update on table \"org_data_key\" violates foreign key constraint \"org_data_key_cmk_id_fkey\""))
    fun _ s => { s with dataKey := some row }

def World.HasActive (w : World) : Prop := ∃ k row, w.cmks.find? k = some row ∧ row.status = .active

def World.wrappedDek? (w : World) : Option WrappedDek := do
  let d ← w.dataKey
  let c ← w.cmks.find? d.cmkId
  if c.status = .active then some ⟨c.providerKeyId, d.wrappedDekB64⟩ else none

def loadWrappedDek : KeyReq WrappedDek := do
  let row ← (.query World.wrappedDek? : KeyTx (Option WrappedDek))
  .commitTx
  .okOr row ⟨.notFound, "org CMEK not configured"⟩

section
variable [Primitives]

def orgDataKey : KeyReq OrgDataKey := do
  let wrapped ← loadWrappedDek
  .ask fun w =>
    match OrgDataKey.fromWrapped w.kms wrapped with
    | .ok k => .ok (k, w)
    | .error e => .error ⟨.forbidden, s!"decrypt failed: {e.asStr}"⟩

def generateWrappedDek (id : String) (r : Draws) : KeyReq WrappedDek := do
  let wrapped ← askKms fun kms => (wrap kms id r.dek.toList r).map fun b => (b, kms)
  return ⟨id, Base64.encode wrapped⟩

/-- Wrap the data key under another key; it stays the same. -/
def rewrapDek (old : WrappedDek) (newCmk : String) (r : Draws) : KeyReq WrappedDek := do
  let wrapped ← .okOr (Base64.decode old.wrappedB64) (cryptoError .invalidKey)
  let dek ← askKms fun kms => (unwrap kms old.cmkId wrapped).map fun b => (b, kms)
  let newWrapped ← askKms fun kms => (wrap kms newCmk dek r).map fun b => (b, kms)
  return ⟨newCmk, Base64.encode newWrapped⟩

def revokeKey (id : String) : KeyReq Unit :=
  askKms fun kms => (revoke kms id).map fun kms => ((), kms)

structure RotationResult where
  newCmkId : String
  wrappedDek : WrappedDek
  oldCmkId : String

def rotateOrgKey (old : WrappedDek) (keyAlias : String) (revokeOld : Bool) (r : Draws) : KeyReq RotationResult := do
  let newCmk ← askKms fun kms => .ok (createKey kms keyAlias r)
  let wrappedDek ← rewrapDek old newCmk r
  if revokeOld then
    revokeKey old.cmkId
  return ⟨newCmk, wrappedDek, old.cmkId⟩

variable [Formats]

def KeyCtx.publicId (ctx : KeyCtx) : String := (Finance.PublicId.mk .customerManagedKey ctx.cmkUuid).asStr

def provisionAlias (ctx : KeyCtx) (keyAlias : String) : String := s!"{keyAlias}-{Formats.uuidDisplay ctx.orgId}"

def rotateAlias (ctx : KeyCtx) : String := s!"org-{Formats.uuidDisplay ctx.orgId}-rotated"

def KeyCtx.newRow (ctx : KeyCtx) (providerKeyId : String) : CmkRow :=
  ⟨ctx.publicId, providerKeyId, .active, ctx.now⟩

def provisionCmk (ctx : KeyCtx) (keyAlias : String) : KeyReq CmkAnswer := do
  .ofExcept ctx.access
  let existing ← (.query fun v => v.cmks.values.any fun r => decide (r.status = .active) : KeyTx Bool)
  (.require (existing = false) (conflict "CMEK already provisioned; use rotate") : KeyTx Unit)
  let cmk ← askKms fun kms => .ok (createKey kms (provisionAlias ctx keyAlias) ctx.draws)
  let wrapped ← generateWrappedDek cmk ctx.draws
  insertCmk ctx.cmkUuid (ctx.newRow cmk)
  insertDataKey ⟨ctx.cmkUuid, wrapped.wrappedB64, 1⟩
  .commitTx
  return .mutation ctx.publicId cmk "active" 1

/-- `UPDATE org_cmk SET status = 'rotating' .. AND status = 'active'`. -/
def markRotating : KeyTx Unit :=
  .updateRows (fun v => (v.cmks.filter fun _ r => decide (r.status = .active)).keys) .cmk
    (fun v k => (v.cmks.find? k).any fun r => decide (r.status = .active))
    fun k s => { s with cmks := s.cmks.modify k fun r => { r with status := .rotating } }

def repointDataKey (cmkId : Uuid) (wrappedDekB64 : List Char) : KeyTx Int :=
  .executeReturning (fun v => if v.dataKey.isSome then [.dataKey] else [])
    (fun v =>
      match v.dataKey with
      | none => .error (Finance.internal "no rows returned by a query that expected to return at least one row")
      | some d =>
        if i32Max < d.version + 1 then .error (databaseError "integer out of range") else .ok (d.version + 1))
    fun _ s => { s with dataKey := s.dataKey.map fun d => ⟨cmkId, wrappedDekB64, d.version + 1⟩ }

def rotateCmk (ctx : KeyCtx) : KeyReq CmkAnswer := do
  .ofExcept ctx.access
  let old ← loadWrappedDek
  let rot ← rotateOrgKey old (rotateAlias ctx) false ctx.draws
  markRotating
  insertCmk ctx.cmkUuid (ctx.newRow rot.newCmkId)
  let version ← repointDataKey ctx.cmkUuid rot.wrappedDek.wrappedB64
  .commitTx
  return .mutation ctx.publicId rot.newCmkId "active" version

def World.latestKey (w : World) (status : CmkStatus) : Option (Uuid × String) :=
  (HashChain.latest (fun r => r.2.createdAt) (w.cmks.rows.filter fun r => decide (r.2.status = status))).map
    fun r => (r.1, r.2.providerKeyId)

/-- The key of that provider id; without one the rotating key, or else the active one. -/
def revokeTarget (providerKeyId : Option String) : KeyReq (Option (Uuid × String)) :=
  match providerKeyId with
  | some pid =>
    liftM (.query fun v => (v.cmks.rows.find? fun r => decide (r.2.providerKeyId = pid)).map fun r =>
      (r.1, r.2.providerKeyId) : KeyTx (Option (Uuid × String)))
  | none => do
    let rotating ← (.query fun v => v.latestKey .rotating : KeyTx (Option (Uuid × String)))
    if rotating.isSome then return rotating
    else liftM (.query fun v => v.latestKey .active : KeyTx (Option (Uuid × String)))

/-- `UPDATE org_cmk SET status = 'revoked' .. WHERE id = $1`. -/
def markRevoked (id : Uuid) : KeyTx Unit :=
  .execute (fun v => if (v.cmks.find? id).isSome then [.cmk id] else []) (fun _ => .ok ()) fun _ s =>
    { s with cmks := s.cmks.modify id fun r => { r with status := .revoked } }

def revokeCmk (ctx : KeyCtx) (providerKeyId : Option String) : KeyReq CmkAnswer := do
  .ofExcept ctx.access
  let target ← revokeTarget providerKeyId
  let target ← .okOr target ⟨.notFound, "CMK not found"⟩
  revokeKey target.2
  markRevoked target.1
  .commitTx
  return .revoked target.2

inductive KeyOp
  | provision (ctx : KeyCtx) (keyAlias : String)
  | rotate (ctx : KeyCtx)
  | revoke (ctx : KeyCtx) (providerKeyId : Option String)

def KeyOp.body : KeyOp → KeyReq CmkAnswer
  | provision ctx keyAlias => provisionCmk ctx keyAlias
  | rotate ctx => rotateCmk ctx
  | revoke ctx providerKeyId => revokeCmk ctx providerKeyId

/-- The id that the KMS makes up for the key of this request. -/
def KeyOp.keyId? : KeyOp → Option String
  | provision ctx keyAlias => some (mockKeyId (provisionAlias ctx keyAlias) ctx.draws)
  | rotate ctx => some (mockKeyId (rotateAlias ctx) ctx.draws)
  | revoke _ _ => none

/-- Ids made of different salts differ, and from those that the KMS has. -/
structure FreshKeyIds {ι : Type} (ops : ι → KeyOp) (kms : MockKms) : Prop where
  unused : ∀ i id, (ops i).keyId? = some id → kms.find? id = none
  apart : ∀ i j id, (ops i).keyId? = some id → (ops j).keyId? = some id → i = j

end

end Noxara.CustomerKeys
