import Mathlib.Logic.Relation
import Noxara.WebhookDispatch

/-! To which address a webhook connects: two checks of the URL, each with its own lookup, and then the lookup of the
client. Dispatchers run side by side: claims, posts and marks of any number of workers in any order, with crashes in
between and with what administrators do to endpoints. -/
namespace Noxara.Webhooks

open Finance (Uuid Timestamp)

/-- The host is an address, so that no lookup is made for it. -/
def Url.literal (u : Url) : Bool :=
  match u.host with
  | some (.ipv4 _) | some (.ipv6 _) => true
  | some (.domain _) | none => false

theorem Url.addresses_of_literal {u : Url} (h : u.literal = true) (answer answer' : Answer) :
    u.addresses answer = u.addresses answer' := by
  unfold Url.literal at h
  unfold Url.addresses
  cases hhost : u.host with
  | none => rfl
  | some host =>
    cases host with
    | ipv4 ip => rfl
    | ipv6 ip => rfl
    | domain name => simp [hhost] at h

theorem mapError_eq_ok {ε ε' α : Type} {f : ε → ε'} {x : Except ε α} {a : α} :
    x.mapError f = .ok a ↔ x = .ok a := by
  cases x <;> simp [Except.mapError]

/-- A check that passes speaks of the addresses of the answer to its own lookup. -/
theorem unblocked_of_guardUrl [WebhookServices] {opts : DispatchOptions} {answer : Answer} {url : String} {u : Url}
    (hstrict : opts.allowPrivate = false) (h : guardUrl opts answer url = .ok ())
    (hparse : UrlFormats.parse url = some u) : ∀ ip ∈ u.addresses answer, isBlockedIp ip = false := by
  have hsafe : assertUrlSafe answer url = .ok () := by
    simpa [guardUrl, hstrict, mapError_eq_ok] using h
  have hparsed : assertParsedSafe answer u = .ok () := by
    simpa [assertUrlSafe, hparse] using hsafe
  exact (assertParsedSafe_eq_ok.mp hparsed).2.2

section
variable [WebhookServices] {opts : DispatchOptions} {o : Outside} {answers : Nat → Answer} {d : ClaimedDelivery}

/-- The secret opens, the payload is serialised and the secret makes a key. -/
def Signable (d : ClaimedDelivery) : Prop :=
  ∃ secret body mac, decrypt d.secretCiphertext = .ok secret ∧ WebhookServices.toVec d.payload = .ok body ∧
    WebhookServices.hmac secret = some mac

theorem sign_eq_ok {secret body : List UInt8} {timestamp : Int} :
    (∃ signature, sign secret body timestamp = .ok signature) ↔
      ∃ mac, WebhookServices.hmac secret = some mac := by
  unfold sign
  cases WebhookServices.hmac secret with
  | none => simp
  | some mac => simp

/-- A request is sent when both checks pass and it can be signed. -/
theorem prepare_eq_ok {request : Request} : prepare opts o d = .ok request ↔
    guardUrl opts (o.answers 0) d.endpointUrl = .ok () ∧ guardUrl opts (o.answers 1) d.endpointUrl = .ok () ∧
      ∃ secret body signature, decrypt d.secretCiphertext = .ok secret ∧
        WebhookServices.toVec d.payload = .ok body ∧ sign secret body o.unixTime = .ok signature ∧
        request = ⟨d.endpointUrl, signature, d.id, d.eventId, body⟩ := by
  simp only [prepare, Finance.bind_ok, mapError_eq_ok, pure, Except.pure, Except.ok.injEq]
  constructor
  · rintro ⟨_, hfirst, secret, hsecret, body, hbody, _, hsecond, signature, hsign, rfl⟩
    exact ⟨hfirst, hsecond, secret, body, signature, hsecret, hbody, hsign, rfl⟩
  · rintro ⟨hfirst, hsecond, secret, body, signature, hsecret, hbody, hsign, rfl⟩
    exact ⟨(), hfirst, secret, hsecret, body, hbody, (), hsecond, signature, hsign, rfl⟩

theorem prepare_url {request : Request} (h : prepare opts o d = .ok request) : request.url = d.endpointUrl := by
  obtain ⟨_, _, _, _, _, _, _, _, rfl⟩ := prepare_eq_ok.mp h
  rfl

theorem exists_prepare_eq_ok : (∃ request, prepare opts o d = .ok request) ↔
    guardUrl opts (o.answers 0) d.endpointUrl = .ok () ∧ guardUrl opts (o.answers 1) d.endpointUrl = .ok () ∧
      Signable d := by
  constructor
  · rintro ⟨request, h⟩
    obtain ⟨hfirst, hsecond, secret, body, signature, hsecret, hbody, hsign, _⟩ := prepare_eq_ok.mp h
    obtain ⟨mac, hmac⟩ := sign_eq_ok.mp ⟨signature, hsign⟩
    exact ⟨hfirst, hsecond, secret, body, mac, hsecret, hbody, hmac⟩
  · rintro ⟨hfirst, hsecond, secret, body, mac, hsecret, hbody, hmac⟩
    obtain ⟨signature, hsign⟩ := (@sign_eq_ok _ _ body o.unixTime).mpr ⟨mac, hmac⟩
    exact ⟨_, prepare_eq_ok.mpr ⟨hfirst, hsecond, secret, body, signature, hsecret, hbody, hsign, rfl⟩⟩

/-- `process_one` sends its request to `ip`. -/
def Connects (opts : DispatchOptions) (o : Outside) (d : ClaimedDelivery) (ip : IpAddr) : Prop :=
  ∃ request, prepare opts o d = .ok request ∧ o.peer request.url = some ip

/-- Nothing is sent, or the check speaks of the very address of the URL, or the answer to the client's own
lookup has no blocked address. -/
def Shielded (opts : DispatchOptions) (answers : Nat → Answer) (d : ClaimedDelivery) : Prop :=
  ¬ Signable d ∨ (∃ i < 2, guardUrl opts (answers i) d.endpointUrl ≠ .ok ()) ∨
    ∀ u, UrlFormats.parse d.endpointUrl = some u → (opts.allowPrivate = false ∧ u.literal = true) ∨
      ∀ ip ∈ u.addresses (answers 2), isBlockedIp ip = false

/-- A client that connects to this address wherever an answer has it. -/
def Outside.seeking (answers : Nat → Answer) (ip : IpAddr) : Outside where
  answers := answers
  connect addrs := if ip ∈ addrs then some ip else none
  connect_mem := by
    intro addrs found h
    split_ifs at h with hmem
    exact Option.some.inj h ▸ hmem
  unreachable := "error sending request"
  reply _ := .ok ⟨200, ""⟩
  unixTime := 0

/-- Whatever the client picks of the answer to its own lookup, it reaches no blocked address exactly where
nothing is sent, or the URL spells the address out and is checked, or that answer has no blocked address. -/
theorem connects_unblocked_iff (opts : DispatchOptions) (answers : Nat → Answer) (d : ClaimedDelivery) :
    (∀ o : Outside, o.answers = answers → ∀ ip, Connects opts o d ip → isBlockedIp ip = false) ↔
      Shielded opts answers d := by
  constructor
  · intro h
    by_cases hsign : Signable d
    · by_cases hrefused : ∃ i < 2, guardUrl opts (answers i) d.endpointUrl ≠ .ok ()
      · exact .inr (.inl hrefused)
      · have hpass : ∀ i < 2, guardUrl opts (answers i) d.endpointUrl = .ok () := by
          intro i hi
          by_contra hno
          exact hrefused ⟨i, hi, hno⟩
        refine .inr (.inr fun u hparse => .inr fun ip hip => ?_)
        have hready := @exists_prepare_eq_ok _ opts (.seeking answers ip) d
        obtain ⟨request, hrequest⟩ := hready.mpr ⟨hpass 0 (by omega), hpass 1 (by omega), hsign⟩
        have hurl := prepare_url hrequest
        refine h (.seeking answers ip) rfl ip ⟨request, hrequest, ?_⟩
        simp [Outside.peer, Outside.seeking, hurl, hparse, hip]
    · exact .inl hsign
  · rintro hshield o rfl ip ⟨request, hrequest, hpeer⟩
    obtain ⟨hfirst, hsecond, hsign⟩ := exists_prepare_eq_ok.mp ⟨request, hrequest⟩
    rw [prepare_url hrequest, Outside.peer] at hpeer
    obtain ⟨u, hparse, hconnect⟩ := Option.bind_eq_some_iff.mp hpeer
    have hmem := o.connect_mem hconnect
    rcases hshield with hno | ⟨i, hi, hno⟩ | hshield
    · exact absurd hsign hno
    · have hcases : i = 0 ∨ i = 1 := by omega
      rcases hcases with rfl | rfl
      · exact absurd hfirst hno
      · exact absurd hsecond hno
    · rcases hshield u hparse with ⟨hstrict, hliteral⟩ | hunblocked
      · rw [Url.addresses_of_literal hliteral _ (o.answers 0)] at hmem
        exact unblocked_of_guardUrl hstrict hfirst hparse ip hmem
      · exact hunblocked ip hmem

end

@[reducible] def canonicalServices : WebhookServices where
  parse url :=
    if url = "https://hooks.example.com/in" then some ⟨"https", some (.domain "hooks.example.com"), some 443⟩
    else none
  openSealed _ sealed := some sealed
  toVec payload := if payload = .null then .ok [110, 117, 108, 108] else .error "unsupported"
  hmac _ := some fun _ => "5d41402abc4b2a76b9719d911017c592ae3c1c6d8b5c3f0e9d7a1b2c3d4e5f60"
  toVec_error := by
    intro payload error h
    split_ifs at h
    cases h
    decide

def sampleClaimed : ClaimedDelivery :=
  ⟨1, 7, 2, 3, .null, 1, "https://hooks.example.com/in", 1 :: List.replicate 28 0, "whk_2", 0⟩

/-- A public address at both checks, and the metadata service when the client looks the name up. -/
def rebinding : Outside := .seeking
  (fun i _ _ => some [if i < 2 then .v4 ⟨93, 184, 216, 34⟩ else .v4 ⟨169, 254, 169, 254⟩])
  (.v4 ⟨169, 254, 169, 254⟩)

theorem rebound_name_reaches_metadata :
    letI := canonicalServices
    Connects .strict rebinding sampleClaimed (.v4 ⟨169, 254, 169, 254⟩) ∧
      isBlockedIp (.v4 ⟨169, 254, 169, 254⟩) = true := by
  let := canonicalServices
  have hready : ∃ request, prepare .strict rebinding sampleClaimed = .ok request := by
    refine exists_prepare_eq_ok.mpr ⟨by decide, by decide, ?_⟩
    exact ⟨List.replicate 16 0, [110, 117, 108, 108], _, by decide, rfl, rfl⟩
  obtain ⟨request, hrequest⟩ := hready
  refine ⟨⟨request, hrequest, ?_⟩, by decide⟩
  rw [prepare_url hrequest]
  decide

/-- A delivery that some worker has claimed, and what it has learnt of it. -/
structure Flight where
  delivery : ClaimedDelivery
  verdict : Option Verdict

/-- What happened to an endpoint: the outcome of an attempt was recorded, or its count was set back. -/
inductive Record
  | outcome (endpointId : Uuid) (delivered : Bool)
  | reset (endpointId : Uuid)
  deriving DecidableEq

/-- The database and the workers' memory. What was posted, by delivery and attempt, and what was recorded
are kept beside them, the latest first. -/
structure World where
  db : Db
  now : Timestamp
  flights : List Flight
  posted : List (Uuid × Nat)
  records : List Record

def World.start (now : Timestamp) : World := ⟨.empty, now, [], [], []⟩

inductive Move
  | tick (secs : Nat)
  | createEndpoint (id orgId : Uuid) (publicId url : String) (secretCiphertext : List UInt8)
  | enqueue (id endpointId eventId : Uuid) (payload : Json)
  | rotateSecret (id : Uuid) (secretCiphertext : List UInt8)
  | disableEndpoint (id : Uuid) (reason : String)
  | claim (locked : List Uuid) (limit : Nat)
  | process (i : Nat) (o : Outside)
  | mark (i : Nat)
  | crash (i : Nat)

def Delivery.enqueued (e : Endpoint) (now : Timestamp) (endpointId eventId : Uuid) (payload : Json) : Delivery where
  orgId := e.orgId
  endpointId := endpointId
  eventId := eventId
  payload := payload
  attempt := 0
  status := .pending
  statusCode := none
  responseBody := none
  deliveredAt := none
  nextRetryAt := some now
  lastError := none
  createdAt := now
  updatedAt := now

/-- A new secret wakes a paused endpoint up. -/
def Endpoint.rotated (e : Endpoint) (secretCiphertext : List UInt8) : Endpoint :=
  { e with
    secretCiphertext := secretCiphertext
    status := if e.status = .paused then .active else e.status
    failureCount := if e.status = .paused then 0 else e.failureCount }

def Endpoint.disabled (e : Endpoint) (reason : String) : Endpoint :=
  { e with
    status := .disabled
    disabledReason := some reason }

def Record.ofOutcome (endpointId : Uuid) (outcome : ProcessOutcome) : Record :=
  .outcome endpointId (outcome = .delivered)

variable [WebhookServices] (opts : DispatchOptions)

/-- One move, nothing where it cannot be made. -/
def World.step (w : World) : Move → Option World
  | .tick secs => some { w with now := w.now + secs }
  | .createEndpoint id orgId publicId url secretCiphertext =>
    if id ∈ w.db.endpoints.keys then none
    else some { w with
      db := { w.db with
        endpoints := w.db.endpoints.insert id ⟨orgId, publicId, url, secretCiphertext, .active, 0, none, none⟩ } }
  | .enqueue id endpointId eventId payload =>
    (w.db.endpoints.find? endpointId).bind fun e =>
      if e.status = .active ∧ id ∉ w.db.deliveries.keys ∧
          ∀ r ∈ w.db.deliveries.rows, ¬ (r.2.orgId = e.orgId ∧ r.2.endpointId = endpointId ∧
            r.2.eventId = eventId) then
        some { w with
          db := { w.db with
            deliveries := w.db.deliveries.insert id (.enqueued e w.now endpointId eventId payload) } }
      else none
  | .rotateSecret id secretCiphertext =>
    (w.db.endpoints.find? id).map fun e => { w with
      db := w.db.updateEndpoint id (·.rotated secretCiphertext)
      records := if e.status = .paused then .reset id :: w.records else w.records }
  | .disableEndpoint id reason =>
    (w.db.endpoints.find? id).map fun _ => { w with db := w.db.updateEndpoint id (·.disabled reason) }
  | .claim locked limit =>
    let claimed := Webhooks.claim opts w.now locked limit w.db
    some { w with
      db := claimed.2
      flights := w.flights ++ claimed.1.map fun d => ⟨d, none⟩ }
  | .process i o =>
    w.flights[i]?.bind fun f =>
      if f.verdict.isNone then
        let posted := if posts opts o f.delivery then (f.delivery.id, f.delivery.attempt) :: w.posted else w.posted
        match examine opts o f.delivery with
        | some v => some { w with
            flights := w.flights.set i { f with verdict := some v }
            posted := posted }
        -- the worker panics
        | none => some { w with
            flights := w.flights.eraseIdx i
            posted := posted }
      else none
  | .mark i =>
    w.flights[i]?.bind fun f => f.verdict.map fun v =>
      let settled := settle w.now f.delivery v w.db
      { w with
        db := settled.2
        flights := w.flights.eraseIdx i
        records := (settled.1.map (Record.ofOutcome f.delivery.endpointId)).toList ++ w.records }
  | .crash i => some { w with flights := w.flights.eraseIdx i }

/-- A run each of whose moves `K` allows. -/
def Runs (K : World → Move → Prop) : World → World → Prop :=
  Relation.ReflTransGen fun w w' => ∃ m, K w m ∧ w.step opts m = some w'

def World.play : World → List Move → World
  | w, [] => w
  | w, m :: ms => World.play ((w.step opts m).getD w) ms

/-- The moves can be made one after another, and `K` allows each. -/
def Allowed (K : World → Move → Prop) : World → List Move → Prop
  | _, [] => True
  | w, m :: ms => K w m ∧ ∃ w' ∈ w.step opts m, Allowed K w' ms

def decidableAllowed (K : World → Move → Prop) [∀ w m, Decidable (K w m)] :
    (w : World) → (ms : List Move) → Decidable (Allowed opts K w ms)
  | _, [] => inferInstanceAs (Decidable True)
  | w, m :: ms =>
    have (w' : World) : Decidable (Allowed opts K w' ms) := decidableAllowed K w' ms
    inferInstanceAs (Decidable (K w m ∧ ∃ w' ∈ w.step opts m, Allowed opts K w' ms))

instance (K : World → Move → Prop) [∀ w m, Decidable (K w m)] (w : World) (ms : List Move) :
    Decidable (Allowed opts K w ms) :=
  decidableAllowed opts K w ms

variable {opts} {K : World → Move → Prop}

/-- What holds at the start and is kept by each allowed move holds at the end of a run. -/
theorem Runs.invariant {P : World → Prop} (hstep : ∀ {w m w'}, P w → K w m → w.step opts m = some w' → P w')
    {w w' : World} (hruns : Runs opts K w w') (h : P w) : P w' := by
  induction hruns with
  | refl => exact h
  | tail _ hmove ih =>
    obtain ⟨m, hK, hm⟩ := hmove
    exact hstep ih hK hm

theorem Allowed.runs {w : World} {ms : List Move} (h : Allowed opts K w ms) : Runs opts K w (w.play opts ms) := by
  induction ms generalizing w with
  | nil => exact .refl
  | cons m ms ih =>
    obtain ⟨hK, w', hstep, hrest⟩ := h
    have hnext : w.play opts (m :: ms) = w'.play opts ms := by
      simp only [World.play, Option.mem_def.mp hstep, Option.getD_some]
    rw [hnext]
    exact .head ⟨m, hK, hstep⟩ (ih hrest)

/-- A worker that posts changes nothing but what it and the receiver know. -/
structure Processed (o : Outside) (f : Flight) (w w' : World) : Prop where
  db : w'.db = w.db
  now : w'.now = w.now
  records : w'.records = w.records
  posted : w'.posted = if posts opts o f.delivery then (f.delivery.id, f.delivery.attempt) :: w.posted else w.posted
  flights : ∀ g ∈ w'.flights, ∃ g' ∈ w.flights, g.delivery = g'.delivery

theorem step_process {w w' : World} {i : Nat} {o : Outside} (h : w.step opts (.process i o) = some w') :
    ∃ f, w.flights[i]? = some f ∧ @Processed _ opts o f w w' := by
  simp only [World.step, Option.bind_eq_some_iff] at h
  obtain ⟨f, hf, hif⟩ := h
  refine ⟨f, hf, ?_⟩
  have hmem : f ∈ w.flights := List.mem_of_getElem? hf
  by_cases hfresh : f.verdict.isNone = true
  · rw [if_pos hfresh] at hif
    cases hexamine : examine opts o f.delivery with
    | none =>
      simp only [hexamine, Option.some.injEq] at hif
      subst hif
      exact ⟨rfl, rfl, rfl, rfl, fun g hg => ⟨g, List.mem_of_mem_eraseIdx hg, rfl⟩⟩
    | some v =>
      simp only [hexamine, Option.some.injEq] at hif
      subst hif
      refine ⟨rfl, rfl, rfl, rfl, fun g hg => ?_⟩
      rcases List.mem_or_eq_of_mem_set hg with hold | rfl
      · exact ⟨g, hold, rfl⟩
      · exact ⟨f, hmem, rfl⟩
  · rw [if_neg hfresh] at hif
    cases hif

end Noxara.Webhooks
