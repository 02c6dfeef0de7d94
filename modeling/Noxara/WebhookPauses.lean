import Noxara.WebhookOutcomes

/-! When an endpoint is paused: its count of failures against what was recorded of it. -/
namespace Noxara.Webhooks

open Finance (Uuid Timestamp)

/-- Failures recorded of an endpoint since its last delivery or reset; the latest record comes first. -/
def streak (id : Uuid) : List Record → Nat
  | [] => 0
  | .outcome e delivered :: records =>
    if e = id then if delivered then 0 else streak id records + 1 else streak id records
  | .reset e :: records => if e = id then 0 else streak id records

/-- The worker will record a failure. -/
def Verdict.fails : Verdict → Bool
  | .delivered _ body => ¬ Storable body
  | .refused _ | .errored _ | .rejected _ _ | .unanswered _ => true

/-- Failures are recorded while the count is the one that was read with the claim, and one that reaches the
limit while the endpoint is active. -/
def Current (w : World) : Move → Prop
  | .mark i => ∀ f ∈ w.flights[i]?, ∀ v ∈ f.verdict, v.fails = true →
      ∀ e ∈ w.db.endpoints.find? f.delivery.endpointId, f.delivery.failureCount = e.failureCount ∧
        (autoPauseFailures ≤ e.failureCount + 1 → e.status = .active)
  | _ => True

instance (w : World) : (m : Move) → Decidable (Current w m)
  | .mark i => inferInstanceAs (Decidable (∀ f ∈ w.flights[i]?, ∀ v ∈ f.verdict, v.fails = true →
      ∀ e ∈ w.db.endpoints.find? f.delivery.endpointId, f.delivery.failureCount = e.failureCount ∧
        (autoPauseFailures ≤ e.failureCount + 1 → e.status = .active)))
  | .tick .. | .createEndpoint .. | .enqueue .. | .rotateSecret .. | .disableEndpoint .. | .claim .. | .process .. |
    .crash .. => inferInstanceAs (Decidable True)

theorem settle_of_not_fails {now : Timestamp} {d : ClaimedDelivery} {db : Db} {v : Verdict} (h : v.fails = false) :
    (settle now d v db).1 = some .delivered := by
  cases v with
  | delivered statusCode body =>
    have hstore : Storable body := by simpa [Verdict.fails] using h
    obtain ⟨db', hmark⟩ := (@exists_markDelivered now d statusCode _ db).mpr hstore
    have hconclude : conclude now d db (.delivered statusCode body) = .ok (.delivered, db') := by
      simp only [conclude, hmark]
      rfl
    simp only [settle, hconclude]
  | refused | errored | rejected | unanswered => cases h

/-- The counts tell the streaks, an active endpoint is below the limit, and flights know their endpoint. -/
structure Counted (w : World) : Prop where
  count : ∀ {id e}, w.db.endpoints.find? id = some e → e.failureCount = streak id w.records
  active : ∀ {id e}, w.db.endpoints.find? id = some e → e.status = .active → e.failureCount < autoPauseFailures
  unknown : ∀ {id}, w.db.endpoints.find? id = none → streak id w.records = 0
  flights : ∀ f ∈ w.flights, ∃ e, w.db.endpoints.find? f.delivery.endpointId = some e ∧
    e.orgId = f.delivery.orgId

theorem counted_start (t : Timestamp) : Counted (.start t) := by
  constructor
  · intro id e h
    cases h
  · intro id e h
    cases h
  · intro id _
    rfl
  · simp [World.start]

theorem failedOnce_spec {e : Endpoint} {d : ClaimedDelivery} (horg : e.orgId = d.orgId)
    (hcount : d.failureCount = e.failureCount) (hactive : autoPauseFailures ≤ e.failureCount + 1 →
      e.status = .active) :
    (e.failedOnce d).orgId = e.orgId ∧ (e.failedOnce d).failureCount = e.failureCount + 1 ∧
      (e.failedOnce d).status = if autoPauseFailures ≤ e.failureCount + 1 then .paused else e.status := by
  by_cases hlimit : autoPauseFailures ≤ e.failureCount + 1
  · simp [Endpoint.failedOnce, horg, hcount, hlimit, hactive hlimit]
  · simp [Endpoint.failedOnce, horg, hcount, hlimit]

theorem deliveredOnce_spec {e : Endpoint} {d : ClaimedDelivery} (horg : e.orgId = d.orgId) (now : Timestamp) :
    (e.deliveredOnce now d).orgId = e.orgId ∧ (e.deliveredOnce now d).failureCount = 0 ∧
      (e.deliveredOnce now d).status = e.status := by
  simp [Endpoint.deliveredOnce, horg]

/-- What an allowed mark does to the endpoint of its delivery. -/
inductive EndpointMarked (w : World) (f : Flight) (w' : World) : Prop
  | nothing (hrecords : w'.records = w.records) (hendpoints : w'.db.endpoints = w.db.endpoints)
  | delivered (hrecords : w'.records = .outcome f.delivery.endpointId true :: w.records)
      (hendpoints : w'.db.endpoints = w.db.endpoints.modify f.delivery.endpointId (·.deliveredOnce w.now f.delivery))
  | failed (hrecords : w'.records = .outcome f.delivery.endpointId false :: w.records)
      (hendpoints : w'.db.endpoints = w.db.endpoints.modify f.delivery.endpointId (·.failedOnce f.delivery))
      (hcurrent : ∀ e ∈ w.db.endpoints.find? f.delivery.endpointId, f.delivery.failureCount = e.failureCount ∧
        (autoPauseFailures ≤ e.failureCount + 1 → e.status = .active))

section
variable {w w' : World}

/-- Where one endpoint changes, and the streaks of the others stay, the others need no second look. -/
theorem Counted.modify (h : Counted w) {k : Uuid} {g : Endpoint → Endpoint}
    (hendpoints : w'.db.endpoints = w.db.endpoints.modify k g)
    (hstreak : ∀ id ≠ k, streak id w'.records = streak id w.records)
    (hk : ∀ {e}, w.db.endpoints.find? k = some e → (g e).orgId = e.orgId ∧
      (g e).failureCount = streak k w'.records ∧ ((g e).status = .active → (g e).failureCount < autoPauseFailures))
    (hnone : w.db.endpoints.find? k = none → streak k w'.records = streak k w.records)
    (hflights : ∀ f ∈ w'.flights, ∃ e, w.db.endpoints.find? f.delivery.endpointId = some e ∧
      e.orgId = f.delivery.orgId) : Counted w' := by
  have hfind : ∀ {id e}, w'.db.endpoints.find? id = some e → id = k ∧
    (∃ e₀, w.db.endpoints.find? k = some e₀ ∧ e = g e₀) ∨
      id ≠ k ∧ w.db.endpoints.find? id = some e := by
    intro id e hid
    rw [hendpoints] at hid
    by_cases hk' : id = k
    · subst hk'
      rw [Table.find?_modify_self, Option.map_eq_some_iff] at hid
      obtain ⟨e₀, he₀, rfl⟩ := hid
      exact .inl ⟨rfl, e₀, he₀, rfl⟩
    · rw [Table.find?_modify_ne _ _ hk'] at hid
      exact .inr ⟨hk', hid⟩
  refine ⟨fun hid => ?_, fun hid hactive => ?_, fun {id} hid => ?_, fun f hf => ?_⟩
  · rcases hfind hid with ⟨rfl, e₀, he₀, rfl⟩ | ⟨hne, hold⟩
    · exact (hk he₀).2.1
    · rw [hstreak _ hne]
      exact h.count hold
  · rcases hfind hid with ⟨rfl, e₀, he₀, rfl⟩ | ⟨_, hold⟩
    · exact (hk he₀).2.2 hactive
    · exact h.active hold hactive
  · have hold : w.db.endpoints.find? id = none := by
      have hsome := Table.isSome_find?_modify w.db.endpoints id k g
      rw [← hendpoints, hid] at hsome
      exact Option.isNone_iff_eq_none.mp (by simpa using hsome.symm)
    by_cases hk' : id = k
    · subst hk'
      rw [hnone hold]
      exact h.unknown hold
    · rw [hstreak _ hk']
      exact h.unknown hold
  · obtain ⟨e, he, horg⟩ := hflights f hf
    by_cases hk' : f.delivery.endpointId = k
    · rw [hk'] at he ⊢
      rw [hendpoints, Table.find?_modify_self, he]
      exact ⟨g e, rfl, (hk he).1.trans horg⟩
    · rw [hendpoints, Table.find?_modify_ne _ _ hk']
      exact ⟨e, he, horg⟩

theorem Counted.mark {f : Flight} (h : Counted w) (hf : f ∈ w.flights) (hmarked : EndpointMarked w f w')
    (hflights : ∀ g ∈ w'.flights, g ∈ w.flights) : Counted w' := by
  obtain ⟨e₀, he₀, horg⟩ := h.flights f hf
  have hknown : w.db.endpoints.find? f.delivery.endpointId ≠ none := by simp [he₀]
  cases hmarked with
  | nothing hrecords hendpoints =>
    constructor
    · rw [hrecords, hendpoints]
      exact h.count
    · rw [hendpoints]
      exact h.active
    · rw [hrecords, hendpoints]
      exact h.unknown
    · rw [hendpoints]
      exact fun g hg => h.flights g (hflights g hg)
  | delivered hrecords hendpoints =>
    refine h.modify hendpoints (fun id hne => ?_) (fun he => ?_) (fun hno => absurd hno hknown)
      fun g hg => h.flights g (hflights g hg)
    · simp [hrecords, streak, hne.symm]
    · rw [he₀] at he
      cases he
      obtain ⟨hsame, hzero, hstatus⟩ := deliveredOnce_spec horg w.now
      refine ⟨hsame, ?_, fun _ => ?_⟩
      · simp [hrecords, streak, hzero]
      · rw [hzero]
        decide
  | failed hrecords hendpoints hcurrent =>
    obtain ⟨hcount, hlimit⟩ := hcurrent e₀ he₀
    refine h.modify hendpoints (fun id hne => ?_) (fun he => ?_) (fun hno => absurd hno hknown)
      fun g hg => h.flights g (hflights g hg)
    · simp [hrecords, streak, hne.symm]
    · rw [he₀] at he
      cases he
      obtain ⟨hsame, hnext, hstatus⟩ := failedOnce_spec horg hcount hlimit
      refine ⟨hsame, ?_, fun hactive => ?_⟩
      · simp [hrecords, streak, hnext, h.count he₀]
      · rw [hstatus] at hactive
        split_ifs at hactive with hreached
        omega

theorem Counted.marked_pauses_iff {f : Flight} (h : Counted w) (hf : f ∈ w.flights) (hmarked : EndpointMarked w f w')
    {id : Uuid} {e e' : Endpoint} (he : w.db.endpoints.find? id = some e)
    (he' : w'.db.endpoints.find? id = some e') (hrunning : e.status ≠ .paused) :
    e'.status = .paused ↔
      w'.records = .outcome id false :: w.records ∧ streak id w'.records = autoPauseFailures := by
  obtain ⟨e₀, he₀, horg⟩ := h.flights f hf
  cases hmarked with
  | nothing hrecords hendpoints =>
    rw [hendpoints, he] at he'
    cases he'
    simp [hrunning, hrecords]
  | delivered hrecords hendpoints =>
    have hstatus : e'.status = e.status := by
      rw [hendpoints] at he'
      by_cases hid : id = f.delivery.endpointId
      · subst hid
        rw [he] at he₀
        cases he₀
        rw [Table.find?_modify_self, he] at he'
        cases he'
        exact (deliveredOnce_spec horg w.now).2.2
      · rw [Table.find?_modify_ne _ _ hid, he] at he'
        cases he'
        rfl
    simp [hstatus, hrunning, hrecords]
  | failed hrecords hendpoints hcurrent =>
    rw [hendpoints] at he'
    by_cases hid : id = f.delivery.endpointId
    · subst hid
      rw [he] at he₀
      cases he₀
      rw [Table.find?_modify_self, he] at he'
      cases he'
      obtain ⟨hcount, hlimit⟩ := hcurrent e he
      obtain ⟨_, _, hstatus⟩ := failedOnce_spec horg hcount hlimit
      have hstreak : streak f.delivery.endpointId w'.records = e.failureCount + 1 := by
        simp [hrecords, streak, h.count he]
      rw [hstatus, hstreak]
      by_cases hreached : autoPauseFailures ≤ e.failureCount + 1
      · have hbelow := h.active he (hlimit hreached)
        have hequal : e.failureCount + 1 = autoPauseFailures := by omega
        simp [hrecords, hequal]
      · have hother : e.failureCount + 1 ≠ autoPauseFailures := by omega
        simp [hreached, hrunning, hother]
    · rw [Table.find?_modify_ne _ _ hid, he] at he'
      cases he'
      have hother : f.delivery.endpointId ≠ id := fun h => hid h.symm
      simp [hrunning, hrecords, hother]

variable [WebhookServices] {opts : DispatchOptions} {m : Move}

theorem step_mark {i : Nat} (hK : Current w (.mark i)) (hstep : w.step opts (.mark i) = some w') :
    ∃ f ∈ w.flights, EndpointMarked w f w' ∧ ∀ g ∈ w'.flights, g ∈ w.flights := by
  simp only [World.step, Option.bind_eq_some_iff, Option.map_eq_some_iff] at hstep
  obtain ⟨f, hf, v, hv, rfl⟩ := hstep
  refine ⟨f, List.mem_of_getElem? hf, ?_, fun g hg => List.mem_of_mem_eraseIdx hg⟩
  have hmarked := settle_marked w.now f.delivery v w.db
  have hfails : (settle w.now f.delivery v w.db).1 ≠ some .delivered → v.fails = true := by
    intro hne
    by_contra hno
    exact hne (settle_of_not_fails (Bool.eq_false_iff.mpr hno))
  generalize hsettled : settle w.now f.delivery v w.db = settled at hmarked hfails
  obtain ⟨outcome, db'⟩ := settled
  cases hmarked with
  | nothing => exact .nothing (by simp) rfl
  | delivered hdeliveries hendpoints =>
    exact .delivered (by simp [Record.ofOutcome]) hendpoints
  | failed hne hdeliveries hendpoints =>
    refine .failed (by simp [Record.ofOutcome, hne]) hendpoints ?_
    exact hK f hf v hv (hfails fun h => hne (Option.some.inj h))

theorem Counted.step (h : Counted w) (hK : Current w m) (hstep : w.step opts m = some w') : Counted w' := by
  cases m with
  | tick secs =>
    simp only [World.step, Option.some.injEq] at hstep
    subst hstep
    exact ⟨h.count, h.active, h.unknown, h.flights⟩
  | createEndpoint id orgId publicId url secretCiphertext =>
    simp only [World.step] at hstep
    split_ifs at hstep with hid
    cases hstep
    have hnew := Table.find?_eq_none.mpr hid
    have hzero := h.unknown hnew
    refine ⟨fun hfind => ?_, fun hfind hactive => ?_, fun {id'} hfind => ?_, fun f hf => ?_⟩
    · rcases Table.find?_insert_some hfind with hold | ⟨rfl, rfl⟩
      · exact h.count hold
      · exact hzero.symm
    · rcases Table.find?_insert_some hfind with hold | ⟨rfl, rfl⟩
      · exact h.active hold hactive
      · exact (by decide : 0 < autoPauseFailures)
    · by_cases hne : id' = id
      · exact hne ▸ hzero
      · rw [Table.find?_insert_ne _ _ hne] at hfind
        exact h.unknown hfind
    · obtain ⟨e, he, horg⟩ := h.flights f hf
      exact ⟨e, Table.find?_insert_of_some he _, horg⟩
  | enqueue id endpointId eventId payload =>
    simp only [World.step, Option.bind_eq_some_iff] at hstep
    obtain ⟨e, _, hif⟩ := hstep
    split_ifs at hif with hnew
    cases hif
    exact ⟨h.count, h.active, h.unknown, h.flights⟩
  | rotateSecret id secretCiphertext =>
    simp only [World.step, Option.map_eq_some_iff] at hstep
    obtain ⟨e, he, rfl⟩ := hstep
    have hknown : w.db.endpoints.find? id ≠ none := by simp [he]
    refine h.modify (k := id) (g := (·.rotated secretCiphertext)) rfl (fun id' hne => ?_) (fun he' => ?_)
      (fun hno => absurd hno hknown) h.flights
    · simp only
      split_ifs
      · simp [streak, hne.symm]
      · rfl
    · rw [he] at he'
      cases he'
      have hcount := h.count he
      by_cases hpaused : e.status = .paused
      · have hlimit : 0 < autoPauseFailures := by decide
        simp [Endpoint.rotated, hpaused, streak, hlimit]
      · simp only [Endpoint.rotated, hpaused, if_false]
        exact ⟨trivial, hcount, h.active he⟩
  | disableEndpoint id reason =>
    simp only [World.step, Option.map_eq_some_iff] at hstep
    obtain ⟨e, he, rfl⟩ := hstep
    refine h.modify (k := id) (g := (·.disabled reason)) rfl (fun _ _ => rfl) (fun he' => ?_) (fun _ => rfl) h.flights
    have hcount := h.count he'
    exact ⟨rfl, hcount, fun hactive => by cases hactive⟩
  | claim locked limit =>
    simp only [World.step, Option.some.injEq] at hstep
    subst hstep
    refine ⟨h.count, h.active, h.unknown, fun f hf => ?_⟩
    rcases List.mem_append.mp hf with hold | hnew
    · exact h.flights f hold
    · obtain ⟨d, hd, rfl⟩ := List.mem_map.mp hnew
      obtain ⟨row, e, _, he, _, hd'⟩ := of_mem_claim hd
      obtain ⟨hfind, horg⟩ := Option.filter_eq_some_iff.mp he
      rw [hd']
      exact ⟨e, hfind, by simpa [claimedDelivery] using horg⟩
  | process i o =>
    obtain ⟨f, _, hproc⟩ := step_process hstep
    constructor
    · rw [hproc.db, hproc.records]
      exact h.count
    · rw [hproc.db]
      exact h.active
    · rw [hproc.db, hproc.records]
      exact h.unknown
    · intro g hg
      obtain ⟨g', hg', hsame⟩ := hproc.flights g hg
      rw [hsame, hproc.db]
      exact h.flights g' hg'
  | mark i =>
    obtain ⟨f, hf, hmarked, hflights⟩ := step_mark hK hstep
    exact h.mark hf hmarked hflights
  | crash i =>
    simp only [World.step, Option.some.injEq] at hstep
    subst hstep
    exact ⟨h.count, h.active, h.unknown, fun g hg => h.flights g (List.mem_of_mem_eraseIdx hg)⟩

/-- An endpoint is paused by the failure that makes its streak reach the limit, and by nothing else. -/
theorem Counted.pauses_iff (h : Counted w) (hK : Current w m) (hstep : w.step opts m = some w') {id : Uuid}
    {e e' : Endpoint} (he : w.db.endpoints.find? id = some e) (he' : w'.db.endpoints.find? id = some e')
    (hrunning : e.status ≠ .paused) :
    e'.status = .paused ↔
      w'.records = .outcome id false :: w.records ∧ streak id w'.records = autoPauseFailures := by
  have hquiet : e'.status ≠ .paused → w'.records ≠ .outcome id false :: w.records → (e'.status = .paused ↔
      w'.records = .outcome id false :: w.records ∧ streak id w'.records = autoPauseFailures) := by
    intro hstatus hrecords
    simp [hstatus, hrecords]
  have hkept : w'.db.endpoints.find? id = w.db.endpoints.find? id → e'.status ≠ .paused := by
    intro hsame
    rw [hsame, he] at he'
    cases he'
    exact hrunning
  cases m with
  | tick secs =>
    simp only [World.step, Option.some.injEq] at hstep
    subst hstep
    exact hquiet (hkept rfl) (by simp)
  | createEndpoint id' orgId publicId url secretCiphertext =>
    simp only [World.step] at hstep
    split_ifs at hstep with hid
    cases hstep
    exact hquiet (hkept ((Table.find?_insert_of_some he _).trans he.symm)) (by simp)
  | enqueue id' endpointId eventId payload =>
    simp only [World.step, Option.bind_eq_some_iff] at hstep
    obtain ⟨e₀, _, hif⟩ := hstep
    split_ifs at hif with hnew
    cases hif
    exact hquiet (hkept rfl) (by simp)
  | rotateSecret id' secretCiphertext =>
    simp only [World.step, Option.map_eq_some_iff] at hstep
    obtain ⟨e₀, he₀, rfl⟩ := hstep
    refine hquiet ?_ ?_
    · by_cases hid : id = id'
      · subst hid
        simp only [Db.updateEndpoint, Table.find?_modify_self, he, Option.map_some, Option.some.injEq] at he'
        subst he'
        simp [Endpoint.rotated, hrunning]
      · exact hkept (Table.find?_modify_ne _ _ hid)
    · simp only
      split_ifs
      · simp
      · simp
  | disableEndpoint id' reason =>
    simp only [World.step, Option.map_eq_some_iff] at hstep
    obtain ⟨e₀, he₀, rfl⟩ := hstep
    refine hquiet ?_ (by simp)
    by_cases hid : id = id'
    · subst hid
      simp only [Db.updateEndpoint, Table.find?_modify_self, he, Option.map_some, Option.some.injEq] at he'
      subst he'
      simp [Endpoint.disabled]
    · exact hkept (Table.find?_modify_ne _ _ hid)
  | claim locked limit =>
    simp only [World.step, Option.some.injEq] at hstep
    subst hstep
    exact hquiet (hkept rfl) (by simp)
  | process i o =>
    obtain ⟨f, _, hproc⟩ := step_process hstep
    exact hquiet (hkept (by rw [hproc.db])) (by simp [hproc.records])
  | mark i =>
    obtain ⟨f, hf, hmarked, _⟩ := step_mark hK hstep
    exact h.marked_pauses_iff hf hmarked he he' hrunning
  | crash i =>
    simp only [World.step, Option.some.injEq] at hstep
    subst hstep
    exact hquiet (hkept rfl) (by simp)

/-- In a run whose failures are recorded with current counts, the count of an endpoint is the number of failures
since its last delivery or reset, and it is paused when that number reaches the limit. -/
theorem auto_pause_counts_consecutive {t : Timestamp} (h : Runs opts Current (.start t) w) :
    (∀ {id e}, w.db.endpoints.find? id = some e → e.failureCount = streak id w.records) ∧
    ∀ {m w'}, Current w m → w.step opts m = some w' → ∀ {id e e'}, w.db.endpoints.find? id = some e →
      w'.db.endpoints.find? id = some e' → e.status ≠ .paused →
        (e'.status = .paused ↔
          w'.records = .outcome id false :: w.records ∧ streak id w'.records = autoPauseFailures) := by
  have hcounted : Counted w := h.invariant Counted.step (counted_start t)
  exact ⟨hcounted.count, hcounted.pauses_iff⟩

end

def failedOnceRun : List Move :=
  oneDelivery ++ [.claim [] 5, .process 0 (answering 500 ""), .mark 0]

theorem auto_pause_counts_consecutive_sample :
    letI := canonicalServices
    let w := (World.start 0).play .strict failedOnceRun
    ∀ {e}, w.db.endpoints.find? 2 = some e → e.failureCount = streak 2 w.records := by
  have hallowed : letI := canonicalServices
      Allowed .strict Current (.start 0) failedOnceRun := by decide +kernel
  let := canonicalServices
  intro w e he
  exact (auto_pause_counts_consecutive hallowed.runs).1 he

/-- Two deliveries of one endpoint fail in one batch. -/
def failedTwice : List Move :=
  oneDelivery ++ [.enqueue 4 2 5 .null, .claim [] 5, .process 0 (answering 500 ""), .process 1 (answering 500 ""),
    .mark 0, .mark 0]

theorem failures_of_one_batch_count_once :
    letI := canonicalServices
    let w := (World.start 0).play .strict failedTwice
    Runs .strict (fun _ _ => True) (.start 0) w ∧ streak 2 w.records = 2 ∧
      ∃ e ∈ w.db.endpoints.find? 2, e.failureCount = 1 := by
  have hallowed : letI := canonicalServices
      Allowed .strict (fun _ _ => True) (.start 0) failedTwice := by decide +kernel
  let := canonicalServices
  exact ⟨hallowed.runs, by decide +kernel, by decide +kernel⟩

end Noxara.Webhooks
