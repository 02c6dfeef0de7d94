import Mathlib.Tactic.Positivity
import Noxara.WebhookRuns

/-! What one delivery comes to: the response is cut to its first bytes, and the row is marked. -/
namespace Noxara.Webhooks

open Finance (Uuid Timestamp)

def byteLength : List Char → Nat
  | [] => 0
  | c :: cs => c.utf8Size + byteLength cs

@[simp] theorem byteLength_append (cs ds : List Char) : byteLength (cs ++ ds) = byteLength cs + byteLength ds := by
  induction cs with
  | nil => simp [byteLength]
  | cons c cs ih => simp [byteLength, ih, Nat.add_assoc]

theorem utf8ByteSize_ofList (cs : List Char) : (String.ofList cs).utf8ByteSize = byteLength cs := by
  induction cs with
  | nil => rfl
  | cons c cs ih => simp [byteLength, ih]

theorem utf8ByteSize_eq_byteLength (text : String) : text.utf8ByteSize = byteLength text.toList := by
  have h := utf8ByteSize_ofList text.toList
  rwa [String.ofList_toList] at h

theorem byteLength_eq_zero {cs : List Char} : byteLength cs = 0 ↔ cs = [] := by
  cases cs with
  | nil => simp [byteLength]
  | cons c cs =>
    have hpos := Char.utf8Size_pos c
    simp only [byteLength, reduceCtorEq, iff_false]
    omega

theorem takeBytes_eq_some {n : Nat} {cs ds : List Char} :
    takeBytes n cs = some ds ↔ ds <+: cs ∧ byteLength ds = n := by
  induction cs generalizing n ds with
  | nil =>
    cases n with
    | zero =>
      simp only [takeBytes, Option.some.injEq, List.prefix_nil]
      constructor
      · rintro rfl
        exact ⟨rfl, rfl⟩
      · exact fun h => h.1.symm
    | succ n =>
      simp only [takeBytes, reduceCtorEq, List.prefix_nil, false_iff, not_and]
      rintro rfl h
      simp [byteLength] at h
  | cons c cs ih =>
    cases n with
    | zero =>
      simp only [takeBytes, Option.some.injEq, byteLength_eq_zero]
      constructor
      · rintro rfl
        exact ⟨List.nil_prefix, rfl⟩
      · exact fun h => h.2.symm
    | succ n =>
      have hpos := Char.utf8Size_pos c
      unfold takeBytes
      split_ifs with hfits
      · simp only [Option.map_eq_some_iff, ih, List.prefix_cons_iff]
        constructor
        · rintro ⟨es, ⟨hpre, hlength⟩, rfl⟩
          refine ⟨.inr ⟨es, rfl, hpre⟩, ?_⟩
          simp only [byteLength, hlength]
          omega
        · rintro ⟨rfl | ⟨es, rfl, hpre⟩, hlength⟩
          · simp [byteLength] at hlength
          · simp only [byteLength] at hlength
            exact ⟨es, ⟨hpre, by omega⟩, rfl⟩
      · simp only [List.prefix_cons_iff, false_iff, not_and]
        rintro (rfl | ⟨es, rfl, hpre⟩) hlength
        · simp [byteLength] at hlength
        · simp only [byteLength] at hlength
          omega

/-- The text is short, or its characters fill the stored bytes exactly. -/
def Whole (text : String) : Prop :=
  text.utf8ByteSize ≤ responseBodyMax ∨ ∃ cs, cs <+: text.toList ∧ byteLength cs = responseBodyMax

/-- No zero character among the stored bytes. -/
def ZeroFree (text : String) : Prop :=
  ∀ cs, cs <+: text.toList → byteLength cs ≤ responseBodyMax → Char.ofNat 0 ∉ cs

theorem truncateResponse_eq_some {text stored : String} : truncateResponse text = some stored ↔
    (text.utf8ByteSize ≤ responseBodyMax ∧ stored = text) ∨ (responseBodyMax < text.utf8ByteSize ∧
      ∃ cs, cs <+: text.toList ∧ byteLength cs = responseBodyMax ∧ stored = String.ofList cs ++ "…") := by
  unfold truncateResponse
  split_ifs with hshort
  · have hnot : ¬ responseBodyMax < text.utf8ByteSize := by omega
    simp [hshort, hnot, eq_comm]
  · have hlong : responseBodyMax < text.utf8ByteSize := by omega
    simp only [hshort, hlong, false_and, true_and, false_or, Option.map_eq_some_iff, takeBytes_eq_some]
    constructor
    · rintro ⟨cs, ⟨hpre, hlength⟩, rfl⟩
      exact ⟨cs, hpre, hlength, rfl⟩
    · rintro ⟨cs, hpre, hlength, rfl⟩
      exact ⟨cs, ⟨hpre, hlength⟩, rfl⟩

theorem exists_truncateResponse {text : String} : (∃ stored, truncateResponse text = some stored) ↔ Whole text := by
  simp only [truncateResponse_eq_some, Whole]
  constructor
  · rintro ⟨stored, ⟨hshort, _⟩ | ⟨_, cs, hpre, hlength, _⟩⟩
    · exact .inl hshort
    · exact .inr ⟨cs, hpre, hlength⟩
  · intro h
    by_cases hshort : text.utf8ByteSize ≤ responseBodyMax
    · exact ⟨text, .inl ⟨hshort, rfl⟩⟩
    · obtain ⟨cs, hpre, hlength⟩ := h.resolve_left hshort
      exact ⟨_, .inr ⟨by omega, cs, hpre, hlength, rfl⟩⟩

theorem prefix_of_byteLength_le {cs ds es : List Char} (hcs : cs <+: es) (hds : ds <+: es)
    (h : byteLength cs ≤ byteLength ds) : cs <+: ds := by
  rcases List.prefix_or_prefix_of_prefix hcs hds with hle | ⟨rest, rfl⟩
  · exact hle
  · have hrest : byteLength rest = 0 := by
      simp only [byteLength_append] at h
      omega
    rw [byteLength_eq_zero.mp hrest, List.append_nil]

theorem storable_of_truncateResponse {text stored : String} (h : truncateResponse text = some stored) :
    Storable stored ↔ ZeroFree text := by
  rcases truncateResponse_eq_some.mp h with ⟨hshort, rfl⟩ | ⟨_, cs, hpre, hlength, rfl⟩
  · constructor
    · exact fun hstore cs hpre _ hzero => hstore (hpre.subset hzero)
    · intro hfree
      rw [utf8ByteSize_eq_byteLength] at hshort
      exact hfree _ (List.prefix_refl _) hshort
  · have hstore : Storable (String.ofList cs ++ "…") ↔ Char.ofNat 0 ∉ cs := by
      simp [Storable, String.toList_append]
    rw [hstore]
    constructor
    · intro hfree ds hds hle hzero
      exact hfree ((prefix_of_byteLength_le hds hpre (by omega)).subset hzero)
    · exact fun hfree => hfree cs hpre (by omega)

theorem backoffSecs_pos (attempt : Nat) : 0 < backoffSecs attempt := by
  have hpow : (0 : Int) < 2 ^ min (attempt - 1) 16 := by positivity
  exact lt_min hpow (by decide)

/-- A delivery that has ended, or that waits for a retry. -/
def Settled (now : Timestamp) (row : Delivery) : Prop :=
  row.status = .delivered ∨ row.status = .dead ∨
    (row.status = .failed ∧ ∃ retry, row.nextRetryAt = some retry ∧ now < retry)

/-- What the end of a delivery does to the tables: nothing, or the mark of a delivery or of a failure. -/
inductive Marked (now : Timestamp) (d : ClaimedDelivery) (db : Db) : Option ProcessOutcome → Db → Prop
  | nothing : Marked now d db none db
  | delivered {db' : Db} {statusCode : Nat} {body : String}
      (hdeliveries : db'.deliveries = db.deliveries.modify d.id (·.markedDelivered now statusCode body))
      (hendpoints : db'.endpoints = db.endpoints.modify d.endpointId (·.deliveredOnce now d)) :
      Marked now d db (some .delivered) db'
  | failed {outcome : ProcessOutcome} {db' : Db} {statusCode : Option Nat} {body : Option String}
      {error : String} {permanent : Bool} (hne : outcome ≠ .delivered)
      (hdeliveries : db'.deliveries = db.deliveries.modify d.id
        (·.markedFailed now d.attempt statusCode body error (permanent ∨ d.attempt ≥ maxAttempts)))
      (hendpoints : db'.endpoints = db.endpoints.modify d.endpointId (·.failedOnce d)) :
      Marked now d db (some outcome) db'

section
variable {now : Timestamp} {d : ClaimedDelivery} {db db' : Db} {v : Verdict}

theorem markDelivered_eq_ok {statusCode : Nat} {body : String} (h : markDelivered now d statusCode body db = .ok db') :
    Marked now d db (some .delivered) db' := by
  unfold markDelivered at h
  split_ifs at h with hstore
  cases h
  exact .delivered rfl rfl

theorem markFailed_eq_ok {statusCode : Option Nat} {body : Option String} {error : String} {permanent : Bool}
    {outcome : ProcessOutcome} (hne : outcome ≠ .delivered)
    (h : markFailed now d statusCode body error permanent db = .ok db') : Marked now d db (some outcome) db' := by
  simp only [markFailed] at h
  split_ifs at h with hstore
  cases h
  exact .failed hne rfl rfl

theorem conclude_eq_ok {outcome : ProcessOutcome} (h : conclude now d db v = .ok (outcome, db')) :
    Marked now d db (some outcome) db' := by
  cases v with
  | refused e =>
    obtain ⟨_, hmark, hpair⟩ := Finance.bind_ok.mp h
    cases hpair
    exact markFailed_eq_ok (by decide) hmark
  | errored e => cases h
  | delivered statusCode body =>
    obtain ⟨_, hmark, hpair⟩ := Finance.bind_ok.mp h
    cases hpair
    exact markDelivered_eq_ok hmark
  | rejected statusCode body =>
    obtain ⟨_, hmark, hpair⟩ := Finance.bind_ok.mp h
    cases hpair
    exact markFailed_eq_ok (by decide) hmark
  | unanswered error =>
    obtain ⟨_, hmark, hpair⟩ := Finance.bind_ok.mp h
    cases hpair
    exact markFailed_eq_ok (by decide) hmark

theorem settle_marked (now : Timestamp) (d : ClaimedDelivery) (v : Verdict) (db : Db) :
    Marked now d db (settle now d v db).1 (settle now d v db).2 := by
  unfold settle
  cases hconclude : conclude now d db v with
  | ok r => exact conclude_eq_ok hconclude
  | error e =>
    simp only
    cases hmark : markFailed now d none none ("process error: " ++ e.display) false db with
    | ok db' => exact @markFailed_eq_ok _ _ _ _ _ _ _ _ .failed (by decide) hmark
    | error e' => exact .nothing

theorem settled_markedFailed (now : Timestamp) (row : Delivery) (attempt : Nat) (statusCode : Option Nat)
    (body : Option String) (error : String) (dead : Bool) :
    Settled now (row.markedFailed now attempt statusCode body error dead) := by
  cases dead with
  | true => exact .inr (.inl rfl)
  | false =>
    have hpos := backoffSecs_pos attempt
    have hlater : now < now + backoffSecs attempt := Int.lt_add_of_pos_right now hpos
    exact .inr (.inr ⟨rfl, now + backoffSecs attempt, rfl, hlater⟩)

/-- Other rows stay. -/
theorem Marked.find?_ne {outcome : Option ProcessOutcome} (h : Marked now d db outcome db') {id : Uuid}
    (hid : id ≠ d.id) : db'.deliveries.find? id = db.deliveries.find? id := by
  cases h with
  | nothing => rfl
  | delivered hdeliveries hendpoints => rw [hdeliveries, Table.find?_modify_ne _ _ hid]
  | failed hne hdeliveries hendpoints => rw [hdeliveries, Table.find?_modify_ne _ _ hid]

/-- The row of the delivery stays or carries one of the two marks. -/
theorem Marked.find?_self {outcome : Option ProcessOutcome} (h : Marked now d db outcome db') {row : Delivery}
    (hrow : db.deliveries.find? d.id = some row) : db'.deliveries.find? d.id = some row ∨
      (∃ statusCode body, db'.deliveries.find? d.id = some (row.markedDelivered now statusCode body)) ∨
      ∃ statusCode body error dead, (dead = false → d.attempt < maxAttempts) ∧
        db'.deliveries.find? d.id = some (row.markedFailed now d.attempt statusCode body error dead) := by
  cases h with
  | nothing => exact .inl hrow
  | @delivered _ statusCode body hdeliveries hendpoints =>
    rw [hdeliveries, Table.find?_modify_self, hrow]
    exact .inr (.inl ⟨statusCode, body, rfl⟩)
  | @failed _ _ statusCode body error permanent hne hdeliveries hendpoints =>
    rw [hdeliveries, Table.find?_modify_self, hrow]
    refine .inr (.inr ⟨statusCode, body, error, _, fun hdead => ?_, rfl⟩)
    simp only [decide_eq_false_iff_not, not_or] at hdead
    omega

theorem Marked.settled {outcome : ProcessOutcome} (h : Marked now d db (some outcome) db') {row : Delivery}
    (hrow : db.deliveries.find? d.id = some row) :
    ∃ row', db'.deliveries.find? d.id = some row' ∧ Settled now row' := by
  cases h with
  | delivered hdeliveries hendpoints =>
    rw [hdeliveries, Table.find?_modify_self, hrow]
    exact ⟨_, rfl, .inl rfl⟩
  | failed hne hdeliveries hendpoints =>
    rw [hdeliveries, Table.find?_modify_self, hrow]
    exact ⟨_, rfl, settled_markedFailed ..⟩

end

theorem storable_append {a b : String} : Storable (a ++ b) ↔ Storable a ∧ Storable b := by
  simp [Storable, String.toList_append, not_or]

theorem storable_status (n : Nat) : Storable ("http status " ++ toString n) := by
  have htext : Storable "http status " := by decide
  refine storable_append.mpr ⟨htext, fun hzero => ?_⟩
  rw [Nat.toString_eq_ofList_toDigits, String.toList_ofList] at hzero
  have hdigit := Nat.isDigit_of_mem_toDigits (by decide) (by decide) hzero
  revert hdigit
  decide

theorem storable_ssrf (e : SsrfError) : Storable ("ssrf: " ++ e.display) := by
  cases e <;> decide

theorem storable_crypto (e : WebhookCryptoError) : Storable (DispatchError.crypto e.display).display := by
  cases e <;> decide

theorem storable_http (e : SignError) : Storable (DispatchError.http e.display).display := by
  cases e
  decide

theorem storable_zeroByteError : Storable zeroByteError.display := by decide

theorem exists_markFailed {now : Timestamp} {d : ClaimedDelivery} {statusCode : Option Nat} {body : Option String}
    {error : String} {permanent : Bool} {db : Db} :
    (∃ db', markFailed now d statusCode body error permanent db = .ok db') ↔
      (∀ text ∈ body, Storable text) ∧ Storable error := by
  simp only [markFailed]
  split_ifs with hstore
  · simp only [Except.ok.injEq, exists_eq', true_iff]
    exact hstore
  · simp only [exists_false, false_iff]
    exact hstore

theorem exists_markDelivered {now : Timestamp} {d : ClaimedDelivery} {statusCode : Nat} {body : String} {db : Db} :
    (∃ db', markDelivered now d statusCode body db = .ok db') ↔ Storable body := by
  simp only [markDelivered]
  split_ifs with hstore
  · simp [hstore]
  · simp [hstore]

/-- The texts that a verdict leaves in the row are kept. -/
def Verdict.Kept : Verdict → Prop
  | .refused _ => True
  | .errored _ => False
  | .delivered _ body | .rejected _ body => Storable body
  | .unanswered error => Storable error

theorem exists_bind_pure {ε α β : Type} {x : Except ε α} {f : α → β} :
    (∃ b, (x >>= fun a => pure (f a)) = .ok b) ↔ ∃ a, x = .ok a := by
  cases x with
  | error e => simp [bind, Except.bind]
  | ok a => simp [bind, Except.bind, pure, Except.pure]

theorem exists_conclude {now : Timestamp} {d : ClaimedDelivery} {db : Db} {v : Verdict} :
    (∃ r, conclude now d db v = .ok r) ↔ v.Kept := by
  cases v with
  | refused e =>
    refine exists_bind_pure.trans (exists_markFailed.trans ?_)
    simp [Verdict.Kept, storable_ssrf]
  | errored e => simp [conclude, Verdict.Kept]
  | delivered statusCode body => exact exists_bind_pure.trans exists_markDelivered
  | rejected statusCode body =>
    refine exists_bind_pure.trans (exists_markFailed.trans ?_)
    have hstatus := storable_status statusCode
    simp only [Option.mem_some_iff, forall_eq', hstatus, and_true, Verdict.Kept]
  | unanswered error =>
    refine exists_bind_pure.trans (exists_markFailed.trans ?_)
    simp [Verdict.Kept]

theorem markFailed_eq_error {now : Timestamp} {d : ClaimedDelivery} {statusCode : Option Nat} {body : Option String}
    {error : String} {permanent : Bool} {db : Db} {e : DispatchError}
    (h : markFailed now d statusCode body error permanent db = .error e) : e = zeroByteError := by
  simp only [markFailed] at h
  split_ifs at h with hstore
  cases h
  rfl

theorem markDelivered_eq_error {now : Timestamp} {d : ClaimedDelivery} {statusCode : Nat} {body : String} {db : Db}
    {e : DispatchError} (h : markDelivered now d statusCode body db = .error e) : e = zeroByteError := by
  simp only [markDelivered] at h
  split_ifs at h with hstore
  cases h
  rfl

theorem eq_error_of_bind_pure {ε α β : Type} {x : Except ε α} {f : α → β} {e : ε}
    (h : (x >>= fun a => pure (f a)) = .error e) : x = .error e := by
  cases x with
  | error e' => simpa [bind, Except.bind] using h
  | ok a => cases h

theorem conclude_eq_error {now : Timestamp} {d : ClaimedDelivery} {db : Db} {v : Verdict} {e : DispatchError}
    (h : conclude now d db v = .error e) : v = .errored e ∨ e = zeroByteError := by
  cases v with
  | refused e' => exact .inr (markFailed_eq_error (eq_error_of_bind_pure h))
  | errored e' =>
    simp only [conclude, Except.error.injEq] at h
    exact .inl (congrArg Verdict.errored h)
  | delivered statusCode body => exact .inr (markDelivered_eq_error (eq_error_of_bind_pure h))
  | rejected statusCode body => exact .inr (markFailed_eq_error (eq_error_of_bind_pure h))
  | unanswered error => exact .inr (markFailed_eq_error (eq_error_of_bind_pure h))

theorem settle_records {now : Timestamp} {d : ClaimedDelivery} {db : Db} {v : Verdict}
    (hv : ∀ e, v = .errored e → Storable e.display) : ∃ outcome, (settle now d v db).1 = some outcome := by
  unfold settle
  cases hconclude : conclude now d db v with
  | ok r => exact ⟨r.1, rfl⟩
  | error e =>
    have htext : Storable e.display := by
      rcases conclude_eq_error hconclude with herr | rfl
      · exact hv e herr
      · exact storable_zeroByteError
    have hprocess : Storable "process error: " := by decide
    obtain ⟨db', hmark⟩ := (@exists_markFailed now d none none _ false db).mpr
      ⟨by simp, storable_append.mpr ⟨hprocess, htext⟩⟩
    exact ⟨.failed, by simp only [hmark]⟩

/-- What comes back is kept by the database: the first bytes of a response, or the text of an error. -/
def Keepable : Except String HttpReply → Prop
  | .ok resp => Whole resp.text ∧ ZeroFree resp.text
  | .error error => Storable error

/-- What `examine` makes of an answer can be kept when the answer can, and is nothing when it cannot be cut. -/
theorem verdictOf_kept {reply : Except String HttpReply} :
    (∃ v, verdictOf reply = some v ∧ v.Kept) ↔ Keepable reply := by
  cases reply with
  | error e => simp [verdictOf, Verdict.Kept, Keepable]
  | ok resp =>
    have hkept : ∀ stored : String,
      (if 200 ≤ resp.status ∧ resp.status < 300 then Verdict.delivered resp.status stored
        else .rejected resp.status stored).Kept ↔ Storable stored := by
      intro stored
      split_ifs
      · exact Iff.rfl
      · exact Iff.rfl
    simp only [verdictOf, Option.map_eq_some_iff, Keepable]
    constructor
    · rintro ⟨_, ⟨stored, hcut, rfl⟩, h⟩
      exact ⟨exists_truncateResponse.mp ⟨stored, hcut⟩, (storable_of_truncateResponse hcut).mp
        ((hkept stored).mp h)⟩
    · rintro ⟨hwhole, hfree⟩
      obtain ⟨stored, hcut⟩ := exists_truncateResponse.mpr hwhole
      exact ⟨_, ⟨stored, hcut, rfl⟩, (hkept stored).mpr ((storable_of_truncateResponse hcut).mpr hfree)⟩

theorem exists_verdictOf {reply : Except String HttpReply} :
    (∃ v, verdictOf reply = some v) ↔ ∀ resp, reply = .ok resp → Whole resp.text := by
  cases reply with
  | error e => simp [verdictOf]
  | ok resp =>
    simp only [verdictOf, Option.map_eq_some_iff, Except.ok.injEq, forall_eq']
    constructor
    · rintro ⟨_, stored, hcut, _⟩
      exact exists_truncateResponse.mp ⟨stored, hcut⟩
    · intro hwhole
      obtain ⟨stored, hcut⟩ := exists_truncateResponse.mpr hwhole
      exact ⟨_, stored, hcut, rfl⟩

theorem verdictOf_ne_errored {reply : Except String HttpReply} {e : DispatchError} :
    verdictOf reply ≠ some (.errored e) := by
  cases reply with
  | error e' => simp [verdictOf]
  | ok resp =>
    simp only [verdictOf, ne_eq, Option.map_eq_some_iff, not_exists, not_and]
    intro stored _
    split_ifs
    · simp
    · simp

section
variable [WebhookServices] (opts : DispatchOptions) (now : Timestamp) (o : Outside) (d : ClaimedDelivery) (db : Db)

/-- The secret opens and the payload is serialised. -/
def Legible (d : ClaimedDelivery) : Prop :=
  ∃ secret body, decrypt d.secretCiphertext = .ok secret ∧ WebhookServices.toVec d.payload = .ok body

/-- `process_one` refuses the URL, or gets something back that can be kept. -/
def Finishes : Prop :=
  guardUrl opts (o.answers 0) d.endpointUrl ≠ .ok () ∨
    (Legible d ∧ guardUrl opts (o.answers 1) d.endpointUrl ≠ .ok ()) ∨
    (Signable d ∧ Keepable (send o d.endpointUrl))

/-- Every response that comes back can be cut. -/
def Answers : Prop :=
  guardUrl opts (o.answers 0) d.endpointUrl = .ok () → guardUrl opts (o.answers 1) d.endpointUrl = .ok () →
    Signable d → ∀ resp, send o d.endpointUrl = .ok resp → Whole resp.text

/-- The checks that `process_one` makes, in its order, and where each of them leads. -/
inductive Prepared : Except Refusal Request → Prop
  | firstRefused {e : SsrfError} (hfirst : guardUrl opts (o.answers 0) d.endpointUrl ≠ .ok ()) :
      Prepared (.error (.ssrf e))
  | illegible {e : DispatchError} (hfirst : guardUrl opts (o.answers 0) d.endpointUrl = .ok ())
      (hno : ¬ Legible d) (htext : Storable e.display) : Prepared (.error (.error e))
  | secondRefused {e : SsrfError} (hfirst : guardUrl opts (o.answers 0) d.endpointUrl = .ok ()) (hlegible : Legible d)
      (hsecond : guardUrl opts (o.answers 1) d.endpointUrl ≠ .ok ()) : Prepared (.error (.ssrf e))
  | unsignable {e : DispatchError} (hfirst : guardUrl opts (o.answers 0) d.endpointUrl = .ok ())
      (hsecond : guardUrl opts (o.answers 1) d.endpointUrl = .ok ()) (hno : ¬ Signable d)
      (htext : Storable e.display) : Prepared (.error (.error e))
  | ready {request : Request} (hfirst : guardUrl opts (o.answers 0) d.endpointUrl = .ok ())
      (hsecond : guardUrl opts (o.answers 1) d.endpointUrl = .ok ()) (hsign : Signable d)
      (hurl : request.url = d.endpointUrl) : Prepared (.ok request)

variable {opts now o d db}

theorem guardUrl_eq_error {answer : Answer} {url : String} {r : Refusal} (h : guardUrl opts answer url = .error r) :
    ∃ e, r = .ssrf e := by
  unfold guardUrl at h
  split_ifs at h with hprivate
  cases hsafe : assertUrlSafe answer url with
  | ok _ => simp [hsafe, Except.mapError] at h
  | error e =>
    simp only [hsafe, Except.mapError, Except.error.injEq] at h
    exact ⟨e, h.symm⟩

theorem storable_serialize {payload : Json} {e : String} (h : WebhookServices.toVec payload = .error e) :
    Storable (DispatchError.http ("serialize payload: " ++ e)).display := by
  have he := WebhookServices.toVec_error h
  have hhttp : Storable "http client: " := by decide
  have hserialize : Storable "serialize payload: " := by decide
  exact storable_append.mpr ⟨hhttp, storable_append.mpr ⟨hserialize, he⟩⟩

variable (opts o d) in
theorem prepared : Prepared opts o d (prepare opts o d) := by
  unfold prepare
  cases hfirst : guardUrl opts (o.answers 0) d.endpointUrl with
  | error r =>
    obtain ⟨e, rfl⟩ := guardUrl_eq_error hfirst
    exact .firstRefused (by simp [hfirst])
  | ok _ =>
    cases hsecret : decrypt d.secretCiphertext with
    | error e =>
      refine .illegible hfirst ?_ (storable_crypto e)
      rintro ⟨secret, body, hopen, _⟩
      simp [hsecret] at hopen
    | ok secret =>
      cases hbody : WebhookServices.toVec d.payload with
      | error e =>
        refine .illegible hfirst ?_ (storable_serialize hbody)
        rintro ⟨secret, body, _, hvec⟩
        simp [hbody] at hvec
      | ok body =>
        have hlegible : Legible d := ⟨secret, body, hsecret, hbody⟩
        cases hsecond : guardUrl opts (o.answers 1) d.endpointUrl with
        | error r =>
          obtain ⟨e, rfl⟩ := guardUrl_eq_error hsecond
          exact .secondRefused hfirst hlegible (by simp [hsecond])
        | ok _ =>
          show Prepared opts o d ((sign secret body o.unixTime).mapError (fun e => Refusal.error (.http e.display)) >>=
            fun signature => pure ⟨d.endpointUrl, signature, d.id, d.eventId, body⟩)
          cases hsign : sign secret body o.unixTime with
          | error e =>
            refine .unsignable hfirst hsecond ?_ (storable_http e)
            rintro ⟨secret', body', mac, hopen, hvec, hmac⟩
            have hsame : secret = secret' := Except.ok.inj (hsecret.symm.trans hopen)
            obtain ⟨signature, hsigned⟩ := (@sign_eq_ok _ _ body o.unixTime).mpr
              ⟨mac, hsame ▸ hmac⟩
            rw [hsign] at hsigned
            cases hsigned
          | ok signature =>
            obtain ⟨mac, hmac⟩ := sign_eq_ok.mp ⟨signature, hsign⟩
            exact .ready hfirst hsecond ⟨secret, body, mac, hsecret, hbody, hmac⟩ rfl

theorem examine_kept : (∃ v, examine opts o d = some v ∧ v.Kept) ↔ Finishes opts o d := by
  have hlegible : Signable d → Legible d := by
    rintro ⟨secret, body, mac, hopen, hvec, _⟩
    exact ⟨secret, body, hopen, hvec⟩
  have h := prepared opts o d
  unfold examine Finishes
  generalize prepare opts o d = r at h
  cases h with
  | firstRefused hfirst => simp [hfirst, Verdict.Kept]
  | illegible hfirst hno htext =>
    have hnosign : ¬ Signable d := fun hsign => hno (hlegible hsign)
    simp [hfirst, hno, hnosign, Verdict.Kept]
  | secondRefused hfirst hyes hsecond => simp [hyes, hsecond, Verdict.Kept]
  | unsignable hfirst hsecond hno htext => simp [hfirst, hsecond, hno, Verdict.Kept]
  | ready hfirst hsecond hsign hurl =>
    simp only [hfirst, hsecond, hsign, hurl, ne_eq, not_true_eq_false, and_false, false_or, true_and]
    exact verdictOf_kept

/-- `process_one` comes back, with the row ended or waiting for a later retry, exactly when it finishes. -/
theorem processOne_settled_iff {row : Delivery} (hrow : db.deliveries.find? d.id = some row) :
    (∃ outcome db', processOne opts now o d db = some (.ok (outcome, db')) ∧
      ∃ row', db'.deliveries.find? d.id = some row' ∧ Settled now row') ↔ Finishes opts o d := by
  rw [← examine_kept]
  simp only [processOne, Option.map_eq_some_iff]
  constructor
  · rintro ⟨outcome, db', ⟨v, hv, hconclude⟩, _⟩
    exact ⟨v, hv, exists_conclude.mp ⟨_, hconclude⟩⟩
  · rintro ⟨v, hv, hkept⟩
    obtain ⟨⟨outcome, db'⟩, hconclude⟩ := (@exists_conclude now d db _).mpr hkept
    exact ⟨outcome, db', ⟨v, hv, hconclude⟩, (conclude_eq_ok hconclude).settled hrow⟩

/-- A verdict that is an error carries a text that the database keeps. -/
theorem storable_of_examine {e : DispatchError} (hv : examine opts o d = some (.errored e)) :
    Storable e.display := by
  have h := prepared opts o d
  unfold examine at hv
  generalize prepare opts o d = r at h hv
  cases h with
  | firstRefused | secondRefused => simp at hv
  | illegible hfirst hno htext | unsignable hfirst hsecond hno htext =>
    simp only [Option.some.injEq, Verdict.errored.injEq] at hv
    exact hv ▸ htext
  | ready hfirst hsecond hsign hurl =>
    exact absurd hv verdictOf_ne_errored

theorem examine_isSome : (∃ v, examine opts o d = some v) ↔ Answers opts o d := by
  have h := prepared opts o d
  unfold examine Answers
  generalize prepare opts o d = r at h
  cases h with
  | firstRefused hfirst => simp [hfirst]
  | illegible hfirst hno htext =>
    have hnosign : ¬ Signable d := by
      rintro ⟨secret, body, mac, hopen, hvec, _⟩
      exact hno ⟨secret, body, hopen, hvec⟩
    simp [hnosign]
  | secondRefused hfirst hyes hsecond => simp [hsecond]
  | unsignable hfirst hsecond hno htext => simp [hno]
  | ready hfirst hsecond hsign hurl =>
    simp only [hfirst, hsecond, hsign, hurl, forall_const]
    exact exists_verdictOf

/-- The loop of `dispatch_once` comes back from a delivery, with its row ended or waiting for a later retry,
exactly when every response can be cut. -/
theorem dispatchOne_settled_iff {row : Delivery} (hrow : db.deliveries.find? d.id = some row) :
    (∃ outcome db', dispatchOne opts now o d db = some (outcome, db') ∧
      ∃ row', db'.deliveries.find? d.id = some row' ∧ Settled now row') ↔ Answers opts o d := by
  rw [← examine_isSome]
  simp only [dispatchOne, Option.map_eq_some_iff]
  constructor
  · rintro ⟨outcome, db', ⟨v, hv, _⟩, _⟩
    exact ⟨v, hv⟩
  · rintro ⟨v, hv⟩
    obtain ⟨outcome, hrecorded⟩ := @settle_records now d db v fun e herr =>
      storable_of_examine (herr ▸ hv)
    have hmarked := settle_marked now d v db
    rw [hrecorded] at hmarked
    exact ⟨_, _, ⟨v, hv, rfl⟩, hmarked.settled hrow⟩

end

end Noxara.Webhooks
