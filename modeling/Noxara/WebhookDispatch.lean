import Mathlib.Data.List.Sort
import Noxara.FinanceSchema
import Noxara.WebhookSsrf

/-! The dispatcher of webhook deliveries: rows are claimed under a lease, posted outside any transaction,
and marked. The secret's cipher, the serialiser and the keyed hash are left to their libraries. -/
namespace Noxara.Webhooks

open Finance (Uuid Timestamp)

/-- Consecutive failures of an endpoint before it is paused. -/
def autoPauseFailures : Nat := 10

/-- Attempts before a delivery is dead. -/
def maxAttempts : Nat := 12

def responseBodyMax : Nat := 2048

def defaultDeliveringLeaseSecs : Int := 60

inductive EndpointStatus
  | active | disabled | paused
  deriving DecidableEq

inductive DeliveryStatus
  | pending | delivering | delivered | failed | dead
  deriving DecidableEq

def DeliveryStatus.final : DeliveryStatus → Bool
  | delivered | dead => true
  | pending | delivering | failed => false

structure Endpoint where
  orgId : Uuid
  publicId : String
  url : String
  secretCiphertext : List UInt8
  status : EndpointStatus
  failureCount : Nat
  lastDeliveryAt : Option Timestamp
  disabledReason : Option String
  deriving DecidableEq

structure Delivery where
  orgId : Uuid
  endpointId : Uuid
  eventId : Uuid
  payload : Json
  attempt : Nat
  status : DeliveryStatus
  statusCode : Option Nat
  responseBody : Option String
  deliveredAt : Option Timestamp
  nextRetryAt : Option Timestamp
  lastError : Option String
  createdAt : Timestamp
  updatedAt : Timestamp

structure DeliveryEvent where
  orgId : Uuid
  webhookId : String
  deliveryId : Uuid
  eventId : Uuid
  attempt : Nat
  /-- The status code of a delivery, or the error of a failure and whether it is permanent. -/
  outcome : Nat ⊕ String × Bool

structure Db where
  endpoints : Table Uuid Endpoint
  deliveries : Table Uuid Delivery
  events : List DeliveryEvent

def Db.empty : Db := ⟨.empty, .empty, []⟩

def Db.updateDelivery (db : Db) (id : Uuid) (f : Delivery → Delivery) : Db :=
  { db with deliveries := db.deliveries.modify id f }

def Db.updateEndpoint (db : Db) (id : Uuid) (f : Endpoint → Endpoint) : Db :=
  { db with endpoints := db.endpoints.modify id f }

def Db.emit (db : Db) (event : DeliveryEvent) : Db := { db with events := db.events ++ [event] }

structure ClaimedDelivery where
  id : Uuid
  orgId : Uuid
  endpointId : Uuid
  eventId : Uuid
  payload : Json
  attempt : Nat
  endpointUrl : String
  secretCiphertext : List UInt8
  endpointPublicId : String
  failureCount : Nat

inductive WebhookCryptoError
  | decrypt | badVersion
  deriving DecidableEq

def WebhookCryptoError.display : WebhookCryptoError → String
  | decrypt => "decryption failed"
  | badVersion => "unsupported ciphertext version"

inductive SignError
  | hmac
  deriving DecidableEq

def SignError.display : SignError → String
  | hmac => "hmac error"

inductive DispatchError
  | db (error : String)
  | crypto (error : String)
  | http (error : String)
  deriving DecidableEq

def DispatchError.display : DispatchError → String
  | db e => "database error: " ++ e
  | crypto e => "crypto: " ++ e
  | http e => "http client: " ++ e

/-- The database keeps no text with a zero character. -/
def Storable (text : String) : Prop := Char.ofNat 0 ∉ text.toList

instance (text : String) : Decidable (Storable text) := inferInstanceAs (Decidable (_ ∉ _))

def zeroByteError : DispatchError :=
  .db "error returned from database: invalid byte sequence for encoding \"UTF8\": 0x00"

/-- The libraries that a delivery passes through on its way out. -/
class WebhookServices extends UrlFormats where
  openSealed : List UInt8 → List UInt8 → Option (List UInt8)
  toVec : Json → Except String (List UInt8)
  /-- Keyed first: only the key can be refused. -/
  hmac : List UInt8 → Option (List UInt8 → String)
  /-- The messages of the serialiser are texts that the database keeps. -/
  toVec_error : ∀ {payload error}, toVec payload = .error error → Storable error

structure DispatchOptions where
  allowPrivate : Bool
  deliveringLeaseSecs : Int

def DispatchOptions.strict : DispatchOptions := ⟨false, defaultDeliveringLeaseSecs⟩

def DispatchOptions.leaseSecs (opts : DispatchOptions) : Int := max opts.deliveringLeaseSecs 1

/-- Is a delivery whose endpoint is `e` there to be claimed? -/
def claimable (opts : DispatchOptions) (now : Timestamp) (d : Delivery) (e : Endpoint) : Bool :=
  ((d.status = .pending ∨ d.status = .failed) ∨
      (d.status = .delivering ∧ d.updatedAt ≤ now - opts.leaseSecs)) ∧
    ((d.nextRetryAt.all fun retry => retry ≤ now) ∨ d.status = .delivering) ∧
    e.status = .active ∧ d.attempt < maxAttempts

def Db.endpointOf (db : Db) (d : Delivery) : Option Endpoint :=
  (db.endpoints.find? d.endpointId).filter fun e => e.orgId = d.orgId

/-- The oldest rows that can be claimed and that no other transaction holds. -/
def selectClaimable (opts : DispatchOptions) (now : Timestamp) (locked : List Uuid) (limit : Nat) (db : Db) :
    List (Uuid × Delivery × Endpoint) :=
  ((db.deliveries.rows.filterMap fun r => do
      let e ← db.endpointOf r.2
      if r.1 ∉ locked ∧ claimable opts now r.2 e then some (r.1, r.2, e) else none).insertionSort
    fun a b => a.2.1.createdAt ≤ b.2.1.createdAt).take limit

/-- A row that was being delivered already counted its attempt. -/
def Delivery.claimed (d : Delivery) (now : Timestamp) : Delivery :=
  { d with
    status := .delivering
    attempt := if d.status = .delivering then d.attempt else d.attempt + 1
    updatedAt := now }

def claimedDelivery (now : Timestamp) (row : Uuid × Delivery × Endpoint) : ClaimedDelivery :=
  ⟨row.1, row.2.1.orgId, row.2.1.endpointId, row.2.1.eventId, row.2.1.payload, (row.2.1.claimed now).attempt,
    row.2.2.url, row.2.2.secretCiphertext, row.2.2.publicId, row.2.2.failureCount⟩

/-- The first transaction of `dispatch_once`. -/
def claim (opts : DispatchOptions) (now : Timestamp) (locked : List Uuid) (limit : Nat) (db : Db) :
    List ClaimedDelivery × Db :=
  let rows := selectClaimable opts now locked limit db
  (rows.map (claimedDelivery now),
    { db with deliveries := db.deliveries.mapRows fun id d => if id ∈ rows.map Prod.fst then d.claimed now else d })

def backoffSecs (attempt : Nat) : Int := min (2 ^ min (attempt - 1) 16) 3600

def Delivery.markedDelivered (row : Delivery) (now : Timestamp) (statusCode : Nat) (responseBody : String) :
    Delivery :=
  { row with
    status := .delivered
    statusCode := some statusCode
    responseBody := some responseBody
    deliveredAt := some now
    lastError := none
    nextRetryAt := none
    updatedAt := now }

def Endpoint.deliveredOnce (e : Endpoint) (now : Timestamp) (d : ClaimedDelivery) : Endpoint :=
  if e.orgId = d.orgId then { e with
    failureCount := 0
    lastDeliveryAt := some now } else e

def markDelivered (now : Timestamp) (d : ClaimedDelivery) (statusCode : Nat) (responseBody : String) (db : Db) :
    Except DispatchError Db :=
  if Storable responseBody then
    .ok (((db.updateDelivery d.id (·.markedDelivered now statusCode responseBody)).updateEndpoint d.endpointId
      (·.deliveredOnce now d)).emit
        ⟨d.orgId, d.endpointPublicId, d.id, d.eventId, d.attempt, .inl statusCode⟩)
  else .error zeroByteError

def Delivery.markedFailed (row : Delivery) (now : Timestamp) (attempt : Nat) (statusCode : Option Nat)
    (responseBody : Option String) (error : String) (dead : Bool) : Delivery :=
  { row with
    status := if dead then .dead else .failed
    statusCode := statusCode
    responseBody := responseBody
    lastError := some error
    nextRetryAt := if dead then none else some (now + backoffSecs attempt)
    updatedAt := now }

/-- The endpoint after a failure, whose count is told from the count read when the row was claimed. -/
def Endpoint.failedOnce (e : Endpoint) (d : ClaimedDelivery) : Endpoint :=
  let newFailures := d.failureCount + 1
  if newFailures ≥ autoPauseFailures then
    if e.orgId = d.orgId ∧ e.status = .active then { e with
      failureCount := newFailures
      status := .paused
      disabledReason := some "auto-paused after consecutive delivery failures" } else e
  else if e.orgId = d.orgId then { e with failureCount := newFailures } else e

def markFailed (now : Timestamp) (d : ClaimedDelivery) (statusCode : Option Nat) (responseBody : Option String)
    (error : String) (permanent : Bool) (db : Db) : Except DispatchError Db :=
  let dead := permanent ∨ d.attempt ≥ maxAttempts
  if (∀ body ∈ responseBody, Storable body) ∧ Storable error then
    .ok (((db.updateDelivery d.id (·.markedFailed now d.attempt statusCode responseBody error dead)).updateEndpoint
      d.endpointId (·.failedOnce d)).emit
        ⟨d.orgId, d.endpointPublicId, d.id, d.eventId, d.attempt, .inr (error, dead)⟩)
  else .error zeroByteError

/-- The characters that take the first `n` bytes; nothing where that cuts a character or leaves the text. -/
def takeBytes : Nat → List Char → Option (List Char)
  | 0, _ => some []
  | _ + 1, [] => none
  | n + 1, c :: cs => if c.utf8Size ≤ n + 1 then (takeBytes (n + 1 - c.utf8Size) cs).map (c :: ·) else none

/-- The stored part of a response, nothing where the slice of the text panics. -/
def truncateResponse (body : String) : Option String :=
  if body.utf8ByteSize ≤ responseBodyMax then some body
  else (takeBytes responseBodyMax body.toList).map fun cs => String.ofList cs ++ "…"

structure HttpReply where
  status : Nat
  text : String

/-- What the outside does while one delivery is processed: what each of the successive lookups answers,
which address of its answer the client connects to, and what comes back from there. -/
structure Outside where
  answers : Nat → Answer
  connect : List IpAddr → Option IpAddr
  connect_mem : ∀ {addrs ip}, connect addrs = some ip → ip ∈ addrs
  unreachable : String
  reply : IpAddr → Except String HttpReply
  unixTime : Int

/-- Why no request is sent. -/
inductive Refusal
  | ssrf (error : SsrfError)
  | error (error : DispatchError)
  deriving DecidableEq

structure Request where
  url : String
  signature : String
  deliveryId : Uuid
  eventId : Uuid
  body : List UInt8

section
variable [WebhookServices]

/-- Version byte, nonce of twelve bytes, then the sealed text with its tag. -/
def decrypt (blob : List UInt8) : Except WebhookCryptoError (List UInt8) :=
  if blob.length < 1 + 12 + 16 ∨ blob.head? ≠ some 0x01 then .error .badVersion
  else
    match WebhookServices.openSealed ((blob.drop 1).take 12) (blob.drop 13) with
    | some plain => .ok plain
    | none => .error .decrypt

/-- The header signs the time and the body together. -/
def sign (secret body : List UInt8) (timestamp : Int) : Except SignError String :=
  match WebhookServices.hmac secret with
  | some mac =>
    let sig := mac ((toString timestamp ++ ".").toUTF8.data.toList ++ body)
    .ok ("t=" ++ toString timestamp ++ ",v1=" ++ sig)
  | none => .error .hmac

def guardUrl (opts : DispatchOptions) (answer : Answer) (url : String) : Except Refusal Unit :=
  if opts.allowPrivate then .ok () else (assertUrlSafe answer url).mapError .ssrf

/-- What `process_one` does up to its request: the two checks of the URL make two lookups. -/
def prepare (opts : DispatchOptions) (o : Outside) (d : ClaimedDelivery) : Except Refusal Request := do
  guardUrl opts (o.answers 0) d.endpointUrl
  let secret ← (decrypt d.secretCiphertext).mapError fun e => .error (.crypto e.display)
  let body ← (WebhookServices.toVec d.payload).mapError fun e => .error (.http ("serialize payload: " ++ e))
  -- against rebinding of the name
  guardUrl opts (o.answers 1) d.endpointUrl
  let signature ← (sign secret body o.unixTime).mapError fun e => .error (.http e.display)
  return ⟨d.endpointUrl, signature, d.id, d.eventId, body⟩

/-- The address that the client connects to: it resolves the host itself, with the third lookup. -/
def Outside.peer (o : Outside) (url : String) : Option IpAddr :=
  (UrlFormats.parse url).bind fun u => o.connect (u.addresses (o.answers 2))

def send (o : Outside) (url : String) : Except String HttpReply :=
  match o.peer url with
  | none => .error o.unreachable
  | some ip => o.reply ip

/-- What a worker has learnt of a delivery when it comes to mark it. -/
inductive Verdict
  | refused (error : SsrfError)
  | errored (error : DispatchError)
  | delivered (statusCode : Nat) (body : String)
  | rejected (statusCode : Nat) (body : String)
  | unanswered (error : String)

/-- No verdict where the worker panics. -/
def verdictOf : Except String HttpReply → Option Verdict
  | .error error => some (.unanswered error)
  | .ok resp =>
    (truncateResponse resp.text).map fun truncated =>
      if 200 ≤ resp.status ∧ resp.status < 300 then .delivered resp.status truncated
      else .rejected resp.status truncated

/-- `process_one` up to its mark. -/
def examine (opts : DispatchOptions) (o : Outside) (d : ClaimedDelivery) : Option Verdict :=
  match prepare opts o d with
  | .error (.ssrf e) => some (.refused e)
  | .error (.error e) => some (.errored e)
  | .ok request => verdictOf (send o request.url)

/-- Does a request go out, and come back? -/
def posts (opts : DispatchOptions) (o : Outside) (d : ClaimedDelivery) : Bool := (prepare opts o d).isOk

end

inductive ProcessOutcome
  | delivered | failedSsrf | failed
  deriving DecidableEq

/-- The mark with which `process_one` ends. -/
def conclude (now : Timestamp) (d : ClaimedDelivery) (db : Db) : Verdict → Except DispatchError (ProcessOutcome × Db)
  | .refused e => do return (.failedSsrf, ← markFailed now d none none ("ssrf: " ++ e.display) true db)
  | .errored e => .error e
  | .delivered status body => do return (.delivered, ← markDelivered now d status body db)
  | .rejected status body => do
    return (.failed, ← markFailed now d (some status) (some body) ("http status " ++ toString status) false db)
  | .unanswered error => do return (.failed, ← markFailed now d none none error false db)

/-- What `dispatch_once` makes of the end of `process_one`, with the outcome that was recorded: an error is
marked as a failure, and a mark that fails in turn is let go. -/
def settle (now : Timestamp) (d : ClaimedDelivery) (v : Verdict) (db : Db) : Option ProcessOutcome × Db :=
  match conclude now d db v with
  | .ok (outcome, db') => (some outcome, db')
  | .error e =>
    match markFailed now d none none ("process error: " ++ e.display) false db with
    | .ok db' => (some .failed, db')
    | .error _ => (none, db)

/-- The body of the loop of `dispatch_once`, nothing where it panics. -/
def dispatchOne [WebhookServices] (opts : DispatchOptions) (now : Timestamp) (o : Outside) (d : ClaimedDelivery)
    (db : Db) : Option (Option ProcessOutcome × Db) :=
  (examine opts o d).map fun v => settle now d v db

/-- `process_one`, nothing where it panics. -/
def processOne [WebhookServices] (opts : DispatchOptions) (now : Timestamp) (o : Outside) (d : ClaimedDelivery)
    (db : Db) : Option (Except DispatchError (ProcessOutcome × Db)) :=
  (examine opts o d).map (conclude now d db)

end Noxara.Webhooks
