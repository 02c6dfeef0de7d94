import Mathlib.Data.List.Range
import Noxara.WebhookResponses

/-! How deliveries end over whole runs of any number of dispatchers. -/
namespace Noxara.Webhooks

open Finance (Uuid Timestamp)

section
variable {opts : DispatchOptions} {now : Timestamp} {locked : List Uuid} {limit : Nat} {db : Db}

theorem claimable_iff {d : Delivery} {e : Endpoint} : claimable opts now d e = true ↔
    ((d.status = .pending ∨ d.status = .failed) ∨
      (d.status = .delivering ∧ d.updatedAt ≤ now - opts.leaseSecs)) ∧
    ((∀ retry ∈ d.nextRetryAt, retry ≤ now) ∨ d.status = .delivering) ∧
    e.status = .active ∧ d.attempt < maxAttempts := by
  simp [claimable, Option.all_eq_true]

theorem of_mem_selectClaimable {id : Uuid} {d : Delivery} {e : Endpoint}
    (h : (id, d, e) ∈ selectClaimable opts now locked limit db) :
    db.deliveries.find? id = some d ∧ db.endpointOf d = some e ∧ claimable opts now d e = true := by
  have hmem := (List.perm_insertionSort _ _).mem_iff.mp (List.mem_of_mem_take h)
  obtain ⟨⟨id', d'⟩, hrow, hsome⟩ := List.mem_filterMap.mp hmem
  obtain ⟨e', he, hif⟩ := Option.bind_eq_some_iff.mp hsome
  split_ifs at hif with hclaim
  simp only [Option.some.injEq, Prod.mk.injEq] at hif
  obtain ⟨rfl, rfl, rfl⟩ := hif
  exact ⟨Table.find?_eq_some.mpr hrow, he, hclaim.2⟩

theorem of_mem_claim {d : ClaimedDelivery} (h : d ∈ (claim opts now locked limit db).1) :
    ∃ row e, db.deliveries.find? d.id = some row ∧ db.endpointOf row = some e ∧
      claimable opts now row e = true ∧ d = claimedDelivery now (d.id, row, e) := by
  obtain ⟨⟨id, row, e⟩, hmem, rfl⟩ := List.mem_map.mp h
  obtain ⟨hrow, he, hclaim⟩ := of_mem_selectClaimable hmem
  exact ⟨row, e, hrow, he, hclaim, rfl⟩

theorem find?_claim {id : Uuid} {row' : Delivery}
    (h : (claim opts now locked limit db).2.deliveries.find? id = some row') :
    db.deliveries.find? id = some row' ∨ ∃ row e, db.deliveries.find? id = some row ∧
      db.endpointOf row = some e ∧ claimable opts now row e = true ∧ row' = row.claimed now := by
  simp only [claim, Table.find?_mapRows, Option.map_eq_some_iff] at h
  obtain ⟨row, hrow, hrow'⟩ := h
  split_ifs at hrow' with hmem
  · obtain ⟨⟨id', d, e⟩, hsel, rfl⟩ := List.mem_map.mp hmem
    obtain ⟨hd, he, hclaim⟩ := of_mem_selectClaimable hsel
    have hsame : row = d := Option.some.inj (hrow.symm.trans hd)
    exact .inr ⟨d, e, hd, he, hclaim, hrow'.symm.trans (hsame ▸ rfl)⟩
  · exact .inl (hrow' ▸ hrow)

theorem find?_claim_of_not_claimable {id : Uuid} {row : Delivery} (hrow : db.deliveries.find? id = some row)
    (hno : ∀ e, claimable opts now row e = false) :
    (claim opts now locked limit db).2.deliveries.find? id = some row := by
  simp only [claim, Table.find?_mapRows, hrow, Option.map_some]
  split_ifs with hmem
  · obtain ⟨⟨id', d, e⟩, hsel, rfl⟩ := List.mem_map.mp hmem
    obtain ⟨hd, _, hclaim⟩ := of_mem_selectClaimable hsel
    have hsame : row = d := Option.some.inj (hrow.symm.trans hd)
    rw [← hsame, hno e] at hclaim
    cases hclaim
  · rfl

theorem not_claimable_of_final {d : Delivery} {e : Endpoint} (h : d.status.final = true) :
    claimable opts now d e = false := by
  cases hclaim : claimable opts now d e with
  | false => rfl
  | true =>
    obtain ⟨hstatus, _⟩ := claimable_iff.mp hclaim
    rcases hstatus with (hp | hf) | ⟨hd, _⟩
    · rw [hp] at h
      cases h
    · rw [hf] at h
      cases h
    · rw [hd] at h
      cases h

end

/-- A mark finds its row as it was claimed, a response comes back once for each attempt, and no lease of a
last attempt runs out. -/
def Orderly [WebhookServices] (opts : DispatchOptions) (w : World) : Move → Prop
  | .tick secs => ∀ r ∈ w.db.deliveries.rows, r.2.status = .delivering → maxAttempts ≤ r.2.attempt →
      w.now + secs < r.2.updatedAt + opts.leaseSecs
  | .process i o => ∀ f ∈ w.flights[i]?, posts opts o f.delivery = true →
      (f.delivery.id, f.delivery.attempt) ∉ w.posted
  | .mark i => ∀ f ∈ w.flights[i]?, ∃ row ∈ w.db.deliveries.find? f.delivery.id,
      row.status = .delivering ∧ row.attempt = f.delivery.attempt
  | _ => True

instance [WebhookServices] (opts : DispatchOptions) (w : World) : (m : Move) → Decidable (Orderly opts w m)
  | .tick secs => inferInstanceAs (Decidable (∀ r ∈ w.db.deliveries.rows, r.2.status = .delivering →
      maxAttempts ≤ r.2.attempt → w.now + secs < r.2.updatedAt + opts.leaseSecs))
  | .process i o => inferInstanceAs (Decidable (∀ f ∈ w.flights[i]?, posts opts o f.delivery = true →
      (f.delivery.id, f.delivery.attempt) ∉ w.posted))
  | .mark i => inferInstanceAs (Decidable (∀ f ∈ w.flights[i]?, ∃ row ∈ w.db.deliveries.find? f.delivery.id,
      row.status = .delivering ∧ row.attempt = f.delivery.attempt))
  | .createEndpoint .. | .enqueue .. | .rotateSecret .. | .disableEndpoint .. | .claim .. | .crash .. =>
    inferInstanceAs (Decidable True)

/-- A row within its attempts, and with its lease running on the last of them. -/
structure Fits (opts : DispatchOptions) (now : Timestamp) (row : Delivery) : Prop where
  attempt_le : row.attempt ≤ maxAttempts
  started : row.status = .delivering → 0 < row.attempt
  waiting : row.status = .pending ∨ row.status = .failed → row.attempt < maxAttempts
  leased : row.status = .delivering → maxAttempts ≤ row.attempt → now < row.updatedAt + opts.leaseSecs

structure Tracked (opts : DispatchOptions) (w : World) : Prop where
  rows : ∀ {id row}, w.db.deliveries.find? id = some row → Fits opts w.now row
  flights : ∀ f ∈ w.flights, 0 < f.delivery.attempt ∧ f.delivery.attempt ≤ maxAttempts
  posted : ∀ p ∈ w.posted, 0 < p.2 ∧ p.2 ≤ maxAttempts
  once : w.posted.Nodup

section
variable {opts : DispatchOptions} {now : Timestamp}

theorem DispatchOptions.leaseSecs_pos (opts : DispatchOptions) : 0 < opts.leaseSecs :=
  lt_max_of_lt_right (by decide)

theorem Fits.claimed {row : Delivery} {e : Endpoint} (h : Fits opts now row)
    (hclaim : claimable opts now row e = true) :
    0 < (row.claimed now).attempt ∧ Fits opts now (row.claimed now) := by
  obtain ⟨_, _, _, hlt⟩ := claimable_iff.mp hclaim
  have hlease : now < now + opts.leaseSecs := Int.lt_add_of_pos_right now opts.leaseSecs_pos
  have hpos : 0 < (row.claimed now).attempt := by
    simp only [Delivery.claimed]
    split_ifs with hstatus
    · exact h.started hstatus
    · omega
  have hle : (row.claimed now).attempt ≤ maxAttempts := by
    simp only [Delivery.claimed]
    split_ifs
    · omega
    · omega
  refine ⟨hpos, hle, fun _ => hpos, fun hstatus => ?_, fun _ _ => hlease⟩
  simp [Delivery.claimed] at hstatus

theorem fits_enqueued (e : Endpoint) (endpointId eventId : Uuid) (payload : Json) :
    Fits opts now (.enqueued e now endpointId eventId payload) := by
  constructor
  · exact Nat.zero_le _
  · simp [Delivery.enqueued]
  · exact fun _ => (by decide : 0 < maxAttempts)
  · simp [Delivery.enqueued]

theorem Fits.markedDelivered {row : Delivery} (h : Fits opts now row) (statusCode : Nat) (body : String) :
    Fits opts now (row.markedDelivered now statusCode body) where
  attempt_le := h.attempt_le
  started := by simp [Delivery.markedDelivered]
  waiting := by simp [Delivery.markedDelivered]
  leased := by simp [Delivery.markedDelivered]

theorem Fits.markedFailed {row : Delivery} (h : Fits opts now row) {attempt : Nat} (hattempt : row.attempt = attempt)
    {dead : Bool} (hdead : dead = false → attempt < maxAttempts) (statusCode : Option Nat) (body : Option String)
    (error : String) : Fits opts now (row.markedFailed now attempt statusCode body error dead) := by
  subst hattempt
  cases dead with
  | true => exact ⟨h.attempt_le, by simp [Delivery.markedFailed], by simp [Delivery.markedFailed],
      by simp [Delivery.markedFailed]⟩
  | false => exact ⟨h.attempt_le, by
      simp [Delivery.markedFailed], fun _ => hdead rfl, by simp [Delivery.markedFailed]⟩

theorem Marked.fits {d : ClaimedDelivery} {db db' : Db} {outcome : Option ProcessOutcome}
    (h : Marked now d db outcome db') (hrows : ∀ {id row}, db.deliveries.find? id = some row → Fits opts now row)
    (hmine : ∃ row ∈ db.deliveries.find? d.id, row.status = .delivering ∧ row.attempt = d.attempt)
    {id : Uuid} {row : Delivery} (hrow : db'.deliveries.find? id = some row) : Fits opts now row := by
  by_cases hid : id = d.id
  · subst hid
    obtain ⟨mine, hmem, _, hattempt⟩ := hmine
    have hfits := hrows hmem
    rcases h.find?_self hmem with hsame | ⟨statusCode, body, hmarked⟩ | ⟨statusCode, body, error, dead, hdead,
      hmarked⟩
    · rw [hsame] at hrow
      cases hrow
      exact hfits
    · rw [hmarked] at hrow
      cases hrow
      exact hfits.markedDelivered statusCode body
    · rw [hmarked] at hrow
      cases hrow
      exact hfits.markedFailed hattempt hdead statusCode body error
  · rw [h.find?_ne hid] at hrow
    exact hrows hrow

theorem tracked_start (t : Timestamp) : Tracked opts (.start t) := by
  constructor
  · intro id row h
    cases h
  · simp [World.start]
  · simp [World.start]
  · exact List.nodup_nil

variable [WebhookServices] {w w' : World} {m : Move}

theorem Tracked.step (h : Tracked opts w) (hK : Orderly opts w m) (hstep : w.step opts m = some w') :
    Tracked opts w' := by
  cases m with
  | tick secs =>
    simp only [World.step, Option.some.injEq] at hstep
    subst hstep
    refine ⟨fun hrow => ?_, h.flights, h.posted, h.once⟩
    have hfits := h.rows hrow
    exact ⟨hfits.attempt_le, hfits.started, hfits.waiting, hK _ (Table.find?_eq_some.mp hrow)⟩
  | createEndpoint id orgId publicId url secretCiphertext =>
    simp only [World.step] at hstep
    split_ifs at hstep with hid
    cases hstep
    exact ⟨h.rows, h.flights, h.posted, h.once⟩
  | enqueue id endpointId eventId payload =>
    simp only [World.step, Option.bind_eq_some_iff] at hstep
    obtain ⟨e, _, hif⟩ := hstep
    split_ifs at hif with hnew
    cases hif
    refine ⟨fun hrow => ?_, h.flights, h.posted, h.once⟩
    rcases Table.find?_insert_some hrow with hold | ⟨_, rfl⟩
    · exact h.rows hold
    · exact fits_enqueued e endpointId eventId payload
  | rotateSecret id secretCiphertext =>
    simp only [World.step, Option.map_eq_some_iff] at hstep
    obtain ⟨e, _, rfl⟩ := hstep
    exact ⟨h.rows, h.flights, h.posted, h.once⟩
  | disableEndpoint id reason =>
    simp only [World.step, Option.map_eq_some_iff] at hstep
    obtain ⟨e, _, rfl⟩ := hstep
    exact ⟨h.rows, h.flights, h.posted, h.once⟩
  | claim locked limit =>
    simp only [World.step, Option.some.injEq] at hstep
    subst hstep
    refine ⟨fun hrow => ?_, fun f hf => ?_, h.posted, h.once⟩
    · rcases find?_claim hrow with hold | ⟨row, e, hold, _, hclaim, rfl⟩
      · exact h.rows hold
      · exact ((h.rows hold).claimed hclaim).2
    · rcases List.mem_append.mp hf with hold | hnew
      · exact h.flights f hold
      · obtain ⟨d, hd, rfl⟩ := List.mem_map.mp hnew
        obtain ⟨row, e, hold, _, hclaim, hd'⟩ := of_mem_claim hd
        obtain ⟨hpos, hfits⟩ := (h.rows hold).claimed hclaim
        rw [hd']
        exact ⟨hpos, hfits.attempt_le⟩
  | process i o =>
    obtain ⟨f, hf, hproc⟩ := step_process hstep
    have hrange := h.flights f (List.mem_of_getElem? hf)
    refine ⟨fun hrow => ?_, fun g hg => ?_, ?_, ?_⟩
    · rw [hproc.db] at hrow
      rw [hproc.now]
      exact h.rows hrow
    · obtain ⟨g', hg', hsame⟩ := hproc.flights g hg
      rw [hsame]
      exact h.flights g' hg'
    · rw [hproc.posted]
      split_ifs
      · simp only [List.mem_cons, forall_eq_or_imp]
        exact ⟨hrange, h.posted⟩
      · exact h.posted
    · rw [hproc.posted]
      split_ifs with hposts
      · exact List.nodup_cons.mpr ⟨hK f hf hposts, h.once⟩
      · exact h.once
  | mark i =>
    simp only [World.step, Option.bind_eq_some_iff, Option.map_eq_some_iff] at hstep
    obtain ⟨f, hf, v, hv, rfl⟩ := hstep
    have hmarked := settle_marked w.now f.delivery v w.db
    refine ⟨fun hrow => hmarked.fits h.rows (hK f hf) hrow, fun g hg => ?_, h.posted, h.once⟩
    exact h.flights g (List.mem_of_mem_eraseIdx hg)
  | crash i =>
    simp only [World.step, Option.some.injEq] at hstep
    subst hstep
    exact ⟨h.rows, fun g hg => h.flights g (List.mem_of_mem_eraseIdx hg), h.posted, h.once⟩

theorem step_keeps_final (hK : Orderly opts w m) (hstep : w.step opts m = some w') {id : Uuid} {row : Delivery}
    (hrow : w.db.deliveries.find? id = some row) (hfinal : row.status.final = true) :
    ∃ row', w'.db.deliveries.find? id = some row' ∧ row'.status = row.status := by
  cases m with
  | tick secs =>
    simp only [World.step, Option.some.injEq] at hstep
    subst hstep
    exact ⟨row, hrow, rfl⟩
  | createEndpoint id orgId publicId url secretCiphertext =>
    simp only [World.step] at hstep
    split_ifs at hstep with hid
    cases hstep
    exact ⟨row, hrow, rfl⟩
  | enqueue id' endpointId eventId payload =>
    simp only [World.step, Option.bind_eq_some_iff] at hstep
    obtain ⟨e, _, hif⟩ := hstep
    split_ifs at hif with hnew
    cases hif
    exact ⟨row, Table.find?_insert_of_some hrow _, rfl⟩
  | rotateSecret id secretCiphertext =>
    simp only [World.step, Option.map_eq_some_iff] at hstep
    obtain ⟨e, _, rfl⟩ := hstep
    exact ⟨row, hrow, rfl⟩
  | disableEndpoint id reason =>
    simp only [World.step, Option.map_eq_some_iff] at hstep
    obtain ⟨e, _, rfl⟩ := hstep
    exact ⟨row, hrow, rfl⟩
  | claim locked limit =>
    simp only [World.step, Option.some.injEq] at hstep
    subst hstep
    exact ⟨row, find?_claim_of_not_claimable hrow fun e => not_claimable_of_final hfinal, rfl⟩
  | process i o =>
    obtain ⟨f, _, hproc⟩ := step_process hstep
    rw [hproc.db]
    exact ⟨row, hrow, rfl⟩
  | mark i =>
    simp only [World.step, Option.bind_eq_some_iff, Option.map_eq_some_iff] at hstep
    obtain ⟨f, hf, v, hv, rfl⟩ := hstep
    obtain ⟨mine, hmem, hstatus, _⟩ := hK f hf
    have hne : id ≠ f.delivery.id := by
      rintro rfl
      have hsame : row = mine := Option.some.inj (hrow.symm.trans hmem)
      rw [hsame, hstatus] at hfinal
      cases hfinal
    have hkeep := (settle_marked w.now f.delivery v w.db).find?_ne hne
    exact ⟨row, hkeep.trans hrow, rfl⟩
  | crash i =>
    simp only [World.step, Option.some.injEq] at hstep
    subst hstep
    exact ⟨row, hrow, rfl⟩

theorem runs_keep_final (hruns : Runs opts (Orderly opts) w w') {id : Uuid} {row : Delivery}
    (hrow : w.db.deliveries.find? id = some row) (hfinal : row.status.final = true) :
    ∃ row', w'.db.deliveries.find? id = some row' ∧ row'.status = row.status := by
  induction hruns with
  | refl => exact ⟨row, hrow, rfl⟩
  | tail _ hmove ih =>
    obtain ⟨m, hK, hstep⟩ := hmove
    obtain ⟨row', hrow', hsame⟩ := ih
    obtain ⟨row'', hrow'', hsame'⟩ := step_keeps_final hK hstep hrow' (hsame ▸ hfinal)
    exact ⟨row'', hrow'', hsame'.trans hsame⟩

omit [WebhookServices] in
/-- Each response that came back belongs to an attempt of its own. -/
theorem Tracked.posted_le (h : Tracked opts w) (id : Uuid) :
    (w.posted.filter fun p => p.1 = id).length ≤ maxAttempts := by
  have hsub : w.posted.filter (fun p => p.1 = id) ⊆ (List.range' 1 maxAttempts).map (Prod.mk id) := by
    rintro ⟨id', attempt⟩ hp
    obtain ⟨hmem, hid⟩ := List.mem_filter.mp hp
    have hrange := h.posted _ hmem
    obtain rfl : id' = id := by simpa using hid
    refine List.mem_map.mpr ⟨attempt, List.mem_range'_1.mpr ⟨hrange.1, ?_⟩, rfl⟩
    simp only at hrange
    omega
  have hle := (List.subperm_of_subset (h.once.filter _) hsub).length_le
  simpa using hle

/-- The retry time of a waiting delivery, or the lease of one at work, has passed. -/
def Due (opts : DispatchOptions) (now : Timestamp) (row : Delivery) : Prop :=
  if row.status = .delivering then row.updatedAt + opts.leaseSecs ≤ now
  else ∀ retry ∈ row.nextRetryAt, retry ≤ now

instance (opts : DispatchOptions) (now : Timestamp) (row : Delivery) : Decidable (Due opts now row) :=
  inferInstanceAs (Decidable (if row.status = .delivering then row.updatedAt + opts.leaseSecs ≤ now
    else ∀ retry ∈ row.nextRetryAt, retry ≤ now))

omit [WebhookServices] in
theorem Fits.claimable {row : Delivery} {e : Endpoint} (h : Fits opts now row) (hactive : e.status = .active)
    (hgoing : row.status.final = false) (hdue : Due opts now row) : claimable opts now row e = true := by
  unfold Due at hdue
  rw [claimable_iff]
  cases hstatus : row.status with
  | pending =>
    simp only [hstatus, reduceCtorEq, if_false] at hdue
    exact ⟨.inl (.inl rfl), .inl hdue, hactive, h.waiting (.inl hstatus)⟩
  | failed =>
    simp only [hstatus, reduceCtorEq, if_false] at hdue
    exact ⟨.inl (.inr rfl), .inl hdue, hactive, h.waiting (.inr hstatus)⟩
  | delivering =>
    simp only [hstatus, if_true] at hdue
    have hpassed : row.updatedAt ≤ now - opts.leaseSecs := Int.le_sub_right_of_add_le hdue
    have hlt : row.attempt < maxAttempts := by
      by_contra hno
      have hleased := h.leased hstatus (Nat.le_of_not_lt hno)
      exact absurd hdue (Int.not_le.mpr hleased)
    exact ⟨.inr ⟨rfl, hpassed⟩, .inr rfl, hactive, hlt⟩
  | delivered | dead =>
    rw [hstatus] at hgoing
    cases hgoing

/-- In a run of orderly moves deliveries end once, are posted no more often than they have attempts and never
get stuck; and one delivery comes to its end or to a later retry unless its response cannot be kept. -/
theorem deliveries_end_once {t : Timestamp} (h : Runs opts (Orderly opts) (.start t) w) :
    (∀ {id row}, w.db.deliveries.find? id = some row → row.status.final = true →
      ∀ {w'}, Runs opts (Orderly opts) w w' →
        (∃ row', w'.db.deliveries.find? id = some row' ∧ row'.status = row.status) ∧
        ∀ locked limit, ∀ d ∈ (claim opts w'.now locked limit w'.db).1, d.id ≠ id) ∧
    (∀ id, (w.posted.filter fun p => p.1 = id).length ≤ maxAttempts) ∧
    (∀ {id row e}, w.db.deliveries.find? id = some row → w.db.endpointOf row = some e → e.status = .active →
      row.status.final = false → Due opts w.now row → claimable opts w.now row e = true) ∧
    ∀ {o d row}, w.db.deliveries.find? d.id = some row →
      ((∃ outcome db', processOne opts w.now o d w.db = some (.ok (outcome, db')) ∧
        ∃ row', db'.deliveries.find? d.id = some row' ∧ Settled w.now row') ↔ Finishes opts o d) ∧
      ((∃ outcome db', dispatchOne opts w.now o d w.db = some (outcome, db') ∧
        ∃ row', db'.deliveries.find? d.id = some row' ∧ Settled w.now row') ↔ Answers opts o d) := by
  have htracked : Tracked opts w := h.invariant Tracked.step (tracked_start t)
  refine ⟨?_, htracked.posted_le, ?_, ?_⟩
  · intro id row hrow hfinal w' hruns
    obtain ⟨row', hrow', hsame⟩ := runs_keep_final hruns hrow hfinal
    refine ⟨⟨row', hrow', hsame⟩, fun locked limit d hd => ?_⟩
    rintro rfl
    obtain ⟨taken, e, htaken, _, hclaim, _⟩ := of_mem_claim hd
    have hrow : row' = taken := Option.some.inj (hrow'.symm.trans htaken)
    rw [← hrow, not_claimable_of_final (hsame ▸ hfinal)] at hclaim
    cases hclaim
  · intro id row e hrow _ hactive hgoing hdue
    exact (htracked.rows hrow).claimable hactive hgoing hdue
  · exact fun hrow => ⟨processOne_settled_iff hrow, dispatchOne_settled_iff hrow⟩

end

/-- The receiver answers so, at a public address. -/
def answering (status : Nat) (text : String) : Outside :=
  { Outside.seeking (fun _ _ _ => some [.v4 ⟨93, 184, 216, 34⟩]) (.v4 ⟨93, 184, 216, 34⟩) with
    reply := fun _ => .ok ⟨status, text⟩ }

def oneDelivery : List Move :=
  [.createEndpoint 2 7 "whk_2" "https://hooks.example.com/in" (1 :: List.replicate 28 0), .enqueue 1 2 3 .null]

def deliveredAtOnce : List Move :=
  oneDelivery ++ [.claim [] 5, .process 0 (answering 200 "ok"), .mark 0]

theorem deliveries_end_once_sample :
    letI := canonicalServices
    (((World.start 0).play .strict deliveredAtOnce).posted.filter fun p => p.1 = 1).length ≤ maxAttempts := by
  have hallowed : letI := canonicalServices
      Allowed .strict (Orderly .strict) (.start 0) deliveredAtOnce := by decide +kernel
  let := canonicalServices
  exact (deliveries_end_once hallowed.runs).2.1 1

/-- The worker of the first claim is slow: the lease runs out, another worker delivers, and then the first
records its own failure. -/
def slowWorker : List Move :=
  oneDelivery ++ [.claim [] 5, .process 0 (answering 500 ""), .tick 60, .claim [] 5, .process 1 (answering 200 "ok"),
    .mark 1]

/-- A response of 2049 bytes whose last character lies across the cut. -/
def splitResponse : String := String.ofList (List.replicate 2047 'a' ++ ['é'])

theorem truncateResponse_splitResponse : truncateResponse splitResponse = none := by
  unfold truncateResponse splitResponse
  rw [utf8ByteSize_ofList, String.toList_ofList]
  decide +kernel

/-- A delivery that was delivered becomes failed, and a response makes its worker panic. -/
theorem deliveries_end_twice :
    letI := canonicalServices
    let w := (World.start 0).play .strict slowWorker
    let w' := w.play .strict [.mark 0]
    Runs .strict (fun _ _ => True) (.start 0) w ∧ Runs .strict (fun _ _ => True) w w' ∧
      (∃ row ∈ w.db.deliveries.find? 1, row.status = .delivered) ∧
      (∃ row ∈ w'.db.deliveries.find? 1, row.status = .failed) ∧
      examine .strict (answering 200 splitResponse) sampleClaimed = none := by
  have hslow : letI := canonicalServices
      Allowed .strict (fun _ _ => True) (.start 0) slowWorker := by decide +kernel
  have hlate : letI := canonicalServices
      Allowed .strict (fun _ _ => True) ((World.start 0).play .strict slowWorker) [.mark 0] := by decide +kernel
  have hprepare : letI := canonicalServices
      (prepare .strict (answering 200 splitResponse) sampleClaimed).isOk = true := by decide +kernel
  let := canonicalServices
  refine ⟨hslow.runs, hlate.runs, by decide +kernel, by decide +kernel, ?_⟩
  cases hready : prepare .strict (answering 200 splitResponse) sampleClaimed with
  | error r =>
    rw [hready] at hprepare
    cases hprepare
  | ok request =>
    have hsend : send (answering 200 splitResponse) request.url = .ok ⟨200, splitResponse⟩ := by
      rw [prepare_url hready]
      rfl
    simp only [examine, hready, hsend, verdictOf, truncateResponse_splitResponse, Option.map_none]

end Noxara.Webhooks
