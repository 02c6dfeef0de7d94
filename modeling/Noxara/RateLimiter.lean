import Mathlib.Order.MinMax
import Noxara.KeyedMachines

/-! The limiter of authentication requests: a sliding window for each key, and a lockout that grows with the
rejections and failures of the key. -/
namespace Noxara.RateLimit

open Machines (final outputs final_concat outputs_concat outputs_split family outputs_family outputs_family_of_key)

/-- ℕs of the monotonic clock and durations are in nanoseconds. -/
def millis (ms : ℕ) : ℕ := ms * 1000000

structure Bucket where
  hits : List ℕ
  lockoutUntil : Option ℕ
  progressiveDelayMs : ℕ

def Bucket.new : Bucket := ⟨[], none, 0⟩

structure RateLimiter where
  maxHits : ℕ
  window : ℕ

/-- The delay of an accepted request, or how long a rejected one has to wait. -/
abbrev Answer := Except ℕ ℕ

def Bucket.checkAndHit (l : RateLimiter) (now : ℕ) (b : Bucket) : Bucket × Answer :=
  match b.lockoutUntil.filter (now < ·) with
  | some stop => (b, .error (stop - now))
  | none =>
    let hits := b.hits.filter fun t => now - t < l.window
    if l.maxHits ≤ hits.length then
      let ms := min (b.progressiveDelayMs + 250) 5000
      (⟨hits, some (now + millis ms), ms⟩, .error (millis ms))
    else (⟨hits ++ [now], none, b.progressiveDelayMs⟩, .ok (millis b.progressiveDelayMs))

def Bucket.registerFailure (b : Bucket) : Bucket :=
  { b with progressiveDelayMs := max 100 (min (b.progressiveDelayMs * 2) 8000) }

inductive Op
  | checkAndHit | registerFailure | reset
  deriving DecidableEq

structure Call where
  now : ℕ
  key : String
  op : Op
  deriving DecidableEq

/-- A call with its answer; only a check has one. -/
structure Entry where
  call : Call
  answer : Option Answer
  deriving DecidableEq

/-- A call under the lock, on the bucket of its key; one that is missing is made. -/
def step (l : RateLimiter) (b : Option Bucket) (c : Call) : Option Bucket × Entry :=
  match c.op with
  | .checkAndHit =>
    let r := (b.getD .new).checkAndHit l c.now
    (some r.1, ⟨c, some r.2⟩)
  | .registerFailure => (some (b.getD .new).registerFailure, ⟨c, none⟩)
  | .reset => (none, ⟨c, none⟩)

/-- The answers to calls on a new limiter. -/
def RateLimiter.log (l : RateLimiter) (calls : List Call) : List Entry :=
  outputs (family (step l) Call.key) (fun _ => none) calls

example : (RateLimiter.mk 1 5).log
    [⟨0, "a", .checkAndHit⟩, ⟨2, "b", .checkAndHit⟩, ⟨3, "a", .checkAndHit⟩] =
    [⟨⟨0, "a", .checkAndHit⟩, some (.ok 0)⟩, ⟨⟨2, "b", .checkAndHit⟩, some (.ok 0)⟩,
      ⟨⟨3, "a", .checkAndHit⟩, some (.error 250000000)⟩] := by decide

def Entry.acceptedAt (e : Entry) : Option ℕ :=
  match e.answer with
  | some (.ok _) => some e.call.now
  | _ => none

def Entry.Rejected (e : Entry) : Prop := ∃ d, e.answer = some (.error d)

def acceptances (log : List Entry) : List ℕ := log.filterMap Entry.acceptedAt

/-- The instants that lie in `(t - window, t]`. -/
def counted (l : RateLimiter) (t : ℕ) (ts : List ℕ) : List ℕ :=
  ts.filter fun a => a ≤ t ∧ t < a + l.window

/-- As many requests as the limit are accepted in the window that ends at `t`. -/
def Full (l : RateLimiter) (log : List Entry) (t : ℕ) : Prop :=
  l.maxHits ≤ (counted l t (acceptances log)).length

/-- A request of the log was rejected for a full window, and told to wait until `stop`. -/
def LocksOut (l : RateLimiter) (log : List Entry) (stop : ℕ) : Prop :=
  ∃ (before : List Entry) (e : Entry) (after : List Entry) (d : ℕ), log = before ++ e :: after ∧
    e.answer = some (.error d) ∧ d ≤ millis 5000 ∧ Full l before e.call.now ∧ stop = e.call.now + d

theorem acceptances_concat (log : List Entry) (e : Entry) :
    acceptances (log ++ [e]) = acceptances log ++ e.acceptedAt.toList := by
  rw [acceptances, List.filterMap_append]
  congr 1

theorem locksOut_concat {l : RateLimiter} {log : List Entry} {e : Entry} {stop : ℕ} :
    LocksOut l (log ++ [e]) stop ↔ LocksOut l log stop ∨
      ∃ d, e.answer = some (.error d) ∧ d ≤ millis 5000 ∧ Full l log e.call.now ∧ stop = e.call.now + d := by
  constructor
  · rintro ⟨before, e', after, d, hlog, hrest⟩
    rcases List.eq_nil_or_concat after with rfl | ⟨after', last, rfl⟩
    · obtain ⟨rfl, he⟩ := List.append_inj' hlog rfl
      cases he
      exact .inr ⟨d, hrest⟩
    · rw [List.concat_eq_append, ← List.cons_append, ← List.append_assoc] at hlog
      exact .inl ⟨before, e', after', d, (List.append_inj' hlog rfl).1, hrest⟩
  · rintro (⟨before, e', after, d, rfl, hrest⟩ | ⟨d, hrest⟩)
    · exact ⟨before, e', after ++ [e], d, by simp, hrest⟩
    · exact ⟨log, e, [], d, rfl, hrest⟩

variable {l : RateLimiter}

/-- What a check does: it is locked out, finds the window full, or is accepted. -/
theorem Bucket.checkAndHit_cases (l : RateLimiter) (now : ℕ) (b : Bucket) :
    (∃ stop, b.lockoutUntil = some stop ∧ now < stop ∧ b.checkAndHit l now = (b, .error (stop - now))) ∨
    (∀ stop, b.lockoutUntil = some stop → stop ≤ now) ∧
      ((l.maxHits ≤ (b.hits.filter fun t => now - t < l.window).length ∧ ∃ ms ≤ 5000, b.checkAndHit l now =
          (⟨b.hits.filter fun t => now - t < l.window, some (now + millis ms), ms⟩, .error (millis ms))) ∨
        ((b.hits.filter fun t => now - t < l.window).length < l.maxHits ∧ b.checkAndHit l now =
          (⟨(b.hits.filter fun t => now - t < l.window) ++ [now], none, b.progressiveDelayMs⟩,
            .ok (millis b.progressiveDelayMs)))) := by
  unfold checkAndHit
  cases hlock : b.lockoutUntil.filter (now < ·) with
  | some stop =>
    obtain ⟨hstop, hlt⟩ := Option.filter_eq_some_iff.mp hlock
    exact .inl ⟨stop, hstop, of_decide_eq_true hlt, rfl⟩
  | none =>
    have hended : ∀ stop, b.lockoutUntil = some stop → stop ≤ now := by
      intro stop hstop
      by_contra hlt
      rw [hstop, Option.filter_some, if_pos (by simpa using hlt)] at hlock
      cases hlock
    refine .inr ⟨hended, ?_⟩
    by_cases hfull : l.maxHits ≤ (b.hits.filter fun t => now - t < l.window).length
    · exact .inl ⟨hfull, _, min_le_right _ _, if_pos hfull⟩
    · exact .inr ⟨not_le.mp hfull, if_neg hfull⟩

/-- How the bucket of one key stands to the answers that were given for it. -/
structure Tracks (l : RateLimiter) (calls : List Call) (log : List Entry) (b : Bucket) : Prop where
  past : ∀ t, (∀ c ∈ calls, c.now ≤ t) → ∀ a ∈ b.hits, a ≤ t
  kept : ∀ t, (∀ c ∈ calls, c.now ≤ t) → counted l t b.hits = counted l t (acceptances log)
  lockout : ∀ stop, b.lockoutUntil = some stop → LocksOut l log stop
  standing : ∀ t, (∀ c ∈ calls, c.now ≤ t) → ∀ stop, LocksOut l log stop → t < stop →
    b.lockoutUntil = some stop

theorem Tracks.new (l : RateLimiter) : Tracks l [] [] .new where
  past _ _ a ha := absurd ha List.not_mem_nil
  kept _ _ := rfl
  lockout _ h := nomatch h
  standing _ _ stop := by
    rintro ⟨before, e, after, d, hlog, -⟩
    exact absurd hlog.symm (by simp)

section
variable {calls : List Call} {log : List Entry} {b : Bucket} (h : Tracks l calls log b) {c : Call}

include h

theorem Tracks.kept_eq (hc : ∀ c' ∈ calls, c'.now ≤ c.now) :
    b.hits.filter (fun t => c.now - t < l.window) = counted l c.now (acceptances log) := by
  rw [← h.kept c.now hc, counted]
  apply List.filter_congr
  intro a ha
  have hle := h.past c.now hc a ha
  simp only [decide_eq_decide]
  omega

theorem Tracks.counted_pruned {t : ℕ} (ht : c.now ≤ t) (hall : ∀ c' ∈ calls, c'.now ≤ t) :
    counted l t (b.hits.filter fun a => c.now - a < l.window) = counted l t (acceptances log) := by
  rw [← h.kept t hall, counted, counted, List.filter_filter]
  apply List.filter_congr
  intro a ha
  have hle := h.past t hall a ha
  simp only [← Bool.decide_and, decide_eq_decide]
  omega

theorem Tracks.failed :
    Tracks l (calls ++ [c]) (log ++ [⟨c, none⟩]) b.registerFailure where
  past t ht a ha := h.past t (fun c' hc' => ht c' (List.mem_append_left _ hc')) a ha
  kept t ht := by
    rw [acceptances_concat, Entry.acceptedAt, Option.toList_none, List.append_nil]
    exact h.kept t fun c' hc' => ht c' (List.mem_append_left _ hc')
  lockout stop hstop := locksOut_concat.mpr (.inl (h.lockout stop hstop))
  standing t ht stop hlocks := by
    rcases locksOut_concat.mp hlocks with hlocks | ⟨d, hd, -⟩
    · exact h.standing t (fun c' hc' => ht c' (List.mem_append_left _ hc')) stop hlocks
    · cases hd

/-- A lockout that a request was told of has ended where the bucket has none. -/
theorem Tracks.ended (hc : ∀ c' ∈ calls, c'.now ≤ c.now)
    (hended : ∀ stop, b.lockoutUntil = some stop → stop ≤ c.now) {stop : ℕ} (hlocks : LocksOut l log stop) :
    stop ≤ c.now := by
  by_contra hlt
  exact hlt (hended stop (h.standing c.now hc stop hlocks (not_le.mp hlt)))

theorem Tracks.checked (hc : ∀ c' ∈ calls, c'.now ≤ c.now) :
    Tracks l (calls ++ [c]) (log ++ [⟨c, some (b.checkAndHit l c.now).2⟩]) (b.checkAndHit l c.now).1 := by
  have hprev {t : ℕ} (ht : ∀ c' ∈ calls ++ [c], c'.now ≤ t) : ∀ c' ∈ calls, c'.now ≤ t :=
    fun c' hc' => ht c' (List.mem_append_left _ hc')
  have hnow {t : ℕ} (ht : ∀ c' ∈ calls ++ [c], c'.now ≤ t) : c.now ≤ t := ht c (by simp)
  have hkept := h.kept_eq hc
  rcases b.checkAndHit_cases l c.now with ⟨stop, hstop, hlt, hr⟩ | ⟨hended,
    ⟨hfull, ms, hms, hr⟩ | ⟨hroom, hr⟩⟩ <;>
    rw [hr]
  · -- locked out: the bucket stays, and who is told to wait is told of the same instant
    refine ⟨fun t ht => h.past t (hprev ht), fun t ht => ?_, fun stop' hstop' => ?_,
      fun t ht stop' hlocks hlt' => ?_⟩
    · rw [acceptances_concat, Entry.acceptedAt, Option.toList_none, List.append_nil]
      exact h.kept t (hprev ht)
    · exact locksOut_concat.mpr (.inl (h.lockout stop' hstop'))
    · rcases locksOut_concat.mp hlocks with hlocks | ⟨d, hd, -, -, rfl⟩
      · exact h.standing t (hprev ht) stop' hlocks hlt'
      · cases hd
        rw [hstop, Nat.add_sub_cancel' hlt.le]
  · refine ⟨fun t ht a ha => h.past t (hprev ht) a (List.mem_filter.mp ha).1, fun t ht => ?_,
      fun stop' hstop' => ?_, fun t ht stop' hlocks hlt' => ?_⟩
    · rw [acceptances_concat, Entry.acceptedAt, Option.toList_none, List.append_nil]
      exact h.counted_pruned (hnow ht) (hprev ht)
    · cases hstop'
      refine locksOut_concat.mpr (.inr ⟨_, rfl, Nat.mul_le_mul_right _ hms, ?_, rfl⟩)
      rw [Full, ← hkept]
      exact hfull
    · rcases locksOut_concat.mp hlocks with hlocks | ⟨d, hd, -, -, rfl⟩
      · exact absurd ((h.ended hc hended hlocks).trans (hnow ht)) (not_le.mpr hlt')
      · cases hd
        rfl
  · refine ⟨fun t ht a ha => ?_, fun t ht => ?_, fun stop' hstop' => (nomatch hstop'),
      fun t ht stop' hlocks hlt' => ?_⟩
    · rcases List.mem_append.mp ha with ha | ha
      · exact h.past t (hprev ht) a (List.mem_filter.mp ha).1
      · rw [List.mem_singleton.mp ha]
        exact hnow ht
    · rw [acceptances_concat, counted, counted, List.filter_append, List.filter_append]
      exact congrArg (· ++ _) (h.counted_pruned (hnow ht) (hprev ht))
    · rcases locksOut_concat.mp hlocks with hlocks | ⟨d, hd, -⟩
      · exact absurd ((h.ended hc hended hlocks).trans (hnow ht)) (not_le.mpr hlt')
      · cases hd

theorem Tracks.rejected_iff (hc : ∀ c' ∈ calls, c'.now ≤ c.now) :
    (∃ d, (b.checkAndHit l c.now).2 = .error d) ↔
      (∃ stop, LocksOut l log stop ∧ c.now < stop) ∨ Full l log c.now := by
  have hkept := h.kept_eq hc
  rcases b.checkAndHit_cases l c.now with ⟨stop, hstop, hlt, hr⟩ | ⟨hended,
    ⟨hfull, ms, hms, hr⟩ | ⟨hroom, hr⟩⟩ <;>
    rw [hr]
  · exact iff_of_true ⟨_, rfl⟩ (.inl ⟨stop, h.lockout stop hstop, hlt⟩)
  · rw [hkept] at hfull
    exact iff_of_true ⟨_, rfl⟩ (.inr hfull)
  · refine iff_of_false (fun ⟨d, hd⟩ => nomatch hd) ?_
    rintro (⟨stop, hlocks, hlt⟩ | hfull)
    · exact absurd (h.ended hc hended hlocks) (not_le.mpr hlt)
    · rw [hkept] at hroom
      exact absurd hfull (not_le.mpr hroom)

end

theorem sorted_concat {calls : List Call} {c : Call} (h : (calls ++ [c]).Pairwise (·.now ≤ ·.now)) :
    calls.Pairwise (·.now ≤ ·.now) ∧ ∀ c' ∈ calls, c'.now ≤ c.now := by
  obtain ⟨hcalls, -, hlast⟩ := List.pairwise_append.mp h
  exact ⟨hcalls, fun c' hc' => hlast c' hc' c (List.mem_singleton_self c)⟩

theorem tracks_run (l : RateLimiter) {calls : List Call} (hsorted : calls.Pairwise (·.now ≤ ·.now))
    (hreset : ∀ c ∈ calls, c.op ≠ .reset) :
    Tracks l calls (outputs (step l) none calls) ((final (step l) none calls).getD .new) := by
  induction calls using List.reverseRecOn with
  | nil => exact .new l
  | append_singleton calls c ih =>
    obtain ⟨hcalls, hlast⟩ := sorted_concat hsorted
    have htracks := ih hcalls fun c' hc' => hreset c' (List.mem_append_left _ hc')
    rw [outputs_concat, final_concat]
    unfold step
    cases hop : c.op with
    | checkAndHit => exact htracks.checked hlast
    | registerFailure => exact htracks.failed
    | reset => exact absurd hop (hreset c (by simp))

theorem call_step (l : RateLimiter) (s : Option Bucket) (c : Call) : (step l s c).2.call = c := by
  cases hop : c.op <;> simp [step, hop]

theorem step_check {s : Option Bucket} {c : Call} (hop : c.op = .checkAndHit) :
    (step l s c).2 = ⟨c, some ((s.getD .new).checkAndHit l c.now).2⟩ := by
  simp [step, hop]

theorem calls_outputs (l : RateLimiter) (s : Option Bucket) (calls : List Call) :
    (outputs (step l) s calls).map (·.call) = calls := by
  induction calls generalizing s with
  | nil => rfl
  | cons c calls ih =>
    rw [outputs, List.map_cons, ih, call_step]

theorem mem_acceptances {s : Option Bucket} {calls : List Call} {a : ℕ}
    (ha : a ∈ acceptances (outputs (step l) s calls)) : ∃ c ∈ calls, c.now = a := by
  obtain ⟨e, he, hat⟩ := List.mem_filterMap.mp ha
  refine ⟨e.call, ?_, ?_⟩
  · rw [← calls_outputs l s calls]
    exact List.mem_map_of_mem he
  · unfold Entry.acceptedAt at hat
    split at hat
    · exact Option.some.inj hat
    · cases hat

theorem acceptedAt_step {s : Option Bucket} {c : Call} {a : ℕ} (h : (step l s c).2.acceptedAt = some a) :
    c.op = .checkAndHit ∧ (∃ d, ((s.getD .new).checkAndHit l c.now).2 = .ok d) ∧ c.now = a := by
  unfold step Entry.acceptedAt at h
  cases hop : c.op with
  | checkAndHit =>
    cases hans : ((s.getD .new).checkAndHit l c.now).2 with
    | error d => simp [hop, hans] at h
    | ok d => exact ⟨rfl, ⟨d, rfl⟩, by simpa [hop, hans] using h⟩
  | registerFailure => simp [hop] at h
  | reset => simp [hop] at h

theorem accepted_le (l : RateLimiter) {P : ℕ → Prop} [DecidablePred P]
    (hP : ∀ x y, P x → P y → x ≤ y → y < x + l.window) {calls : List Call}
    (hsorted : calls.Pairwise (·.now ≤ ·.now)) (hreset : ∀ c ∈ calls, c.op ≠ .reset) :
    ((acceptances (outputs (step l) none calls)).filter P).length ≤ l.maxHits := by
  induction calls using List.reverseRecOn with
  | nil => exact Nat.zero_le _
  | append_singleton calls c ih =>
    obtain ⟨hcalls, hlast⟩ := sorted_concat hsorted
    have hreset' : ∀ c' ∈ calls, c'.op ≠ .reset := fun c' hc' => hreset c' (List.mem_append_left _ hc')
    have hle := ih hcalls hreset'
    have htracks := tracks_run l hcalls hreset'
    rw [outputs_concat, acceptances_concat, List.filter_append, List.length_append]
    cases hat : (step l (final (step l) none calls) c).2.acceptedAt with
    | none => exact hle
    | some a =>
      obtain ⟨-, ⟨d, hans⟩, rfl⟩ := acceptedAt_step hat
      by_cases hPa : P c.now
      · have hroom : ¬Full l (outputs (step l) none calls) c.now := by
          intro hfull
          obtain ⟨d', hd'⟩ := (htracks.rejected_iff hlast).mpr (.inr hfull)
          rw [hans] at hd'
          cases hd'
        -- what was accepted in the window so far counts at this request
        have hsub : ((acceptances (outputs (step l) none calls)).filter P).length ≤
            (counted l c.now (acceptances (outputs (step l) none calls))).length := by
          rw [counted, ← List.countP_eq_length_filter, ← List.countP_eq_length_filter]
          refine List.countP_mono_left fun x hx hPx => ?_
          obtain ⟨c', hc', rfl⟩ := mem_acceptances hx
          have hle := hlast c' hc'
          exact decide_eq_true ⟨hle, hP _ _ (of_decide_eq_true hPx) hPa hle⟩
        rw [Full, not_le] at hroom
        have : ([c.now].filter P).length ≤ 1 := List.length_filter_le ..
        simp only [Option.toList_some]
        omega
      · rw [Option.toList_some, List.filter_cons_of_neg (by simpa using hPa)]
        exact hle

theorem log_of_key (l : RateLimiter) (calls : List Call) (key : String) :
    (l.log calls).filter (·.call.key = key) = outputs (step l) none (calls.filter (·.key = key)) :=
  outputs_family (step l) Call.key (fun _ => none) calls (fun s c => by rw [call_step]) key

theorem log_key_alone (l : RateLimiter) (calls : List Call) (key : String) :
    (l.log calls).filter (·.call.key = key) = l.log (calls.filter (·.key = key)) := by
  rw [log_of_key]
  refine (outputs_family_of_key (step l) Call.key (fun _ => none) _ (k := key) fun c hc => ?_).symm
  exact of_decide_eq_true (List.mem_filter.mp hc).2

section
variable (l : RateLimiter) {calls : List Call} (hsorted : calls.Pairwise (·.now ≤ ·.now))
  (hreset : ∀ c ∈ calls, c.op ≠ .reset)

include hsorted hreset

theorem accepted_key_le {P : ℕ → Prop} [DecidablePred P]
    (hP : ∀ x y, P x → P y → x ≤ y → y < x + l.window)
    (key : String) :
    ((acceptances ((l.log calls).filter (·.call.key = key))).filter P).length ≤ l.maxHits := by
  rw [log_of_key]
  exact accepted_le l hP (hsorted.filter _) fun c hc => hreset c (List.mem_filter.mp hc).1

/-- A check is rejected exactly while an earlier rejection of its key locks it out, or where its window is full. -/
theorem rejected_iff {earlier later : List Entry} {e : Entry} (hlog : l.log calls = earlier ++ e :: later)
    (hop : e.call.op = .checkAndHit) :
    e.Rejected ↔ (∃ stop, LocksOut l (earlier.filter (·.call.key = e.call.key)) stop ∧ e.call.now < stop) ∨
      Full l (earlier.filter (·.call.key = e.call.key)) e.call.now := by
  have hkey := log_of_key l calls e.call.key
  rw [hlog, List.filter_append, List.filter_cons_of_pos (by simp)] at hkey
  obtain ⟨before, c, after, hcalls, hbefore, he⟩ := outputs_split _ _ hkey.symm
  have hsorted' := hsorted.filter (·.key = e.call.key)
  have hreset' : ∀ c ∈ calls.filter (·.key = e.call.key), c.op ≠ .reset :=
    fun c hc => hreset c (List.mem_filter.mp hc).1
  rw [hcalls] at hsorted' hreset'
  obtain ⟨hsorted', -, hlast⟩ := List.pairwise_append.mp hsorted'
  have htracks := tracks_run l hsorted' fun c hc => hreset' c (List.mem_append_left _ hc)
  have hcall : e.call = c := by rw [he, call_step]
  rw [hbefore, hcall, ← htracks.rejected_iff fun c' hc' => hlast c' hc' c (List.mem_cons_self ..), he, step_check]
  · exact exists_congr fun d => Option.some_inj
  · rw [← hcall]
    exact hop

end

/-- In every run without resets, at times that do not go back: of one key no interval as long as the window has
more accepted checks than the limit; a check is rejected exactly where the accepted ones of its key fill the
window that ends with it, or while a lockout of at most five seconds from such a rejection has not ended; and the
answers for a key are those of a run of its calls alone. -/
theorem limiter_exact (l : RateLimiter) {calls : List Call} (hsorted : calls.Pairwise (·.now ≤ ·.now))
    (hreset : ∀ c ∈ calls, c.op ≠ .reset) :
    (∀ key a,
      ((acceptances ((l.log calls).filter (·.call.key = key))).filter fun t =>
        a ≤ t ∧ t < a + l.window).length ≤ l.maxHits ∧
      ((acceptances ((l.log calls).filter (·.call.key = key))).filter fun t =>
        a < t ∧ t ≤ a + l.window).length ≤ l.maxHits) ∧
    (∀ earlier e later, l.log calls = earlier ++ e :: later → e.call.op = .checkAndHit →
      (e.Rejected ↔
        (∃ stop, LocksOut l (earlier.filter (·.call.key = e.call.key)) stop ∧ e.call.now < stop) ∨
          Full l (earlier.filter (·.call.key = e.call.key)) e.call.now)) ∧
    ∀ key, (l.log calls).filter (·.call.key = key) = l.log (calls.filter (·.key = key)) := by
  refine ⟨fun key a => ⟨?_, ?_⟩, fun earlier e later => rejected_iff l hsorted hreset, log_key_alone l calls⟩
  · refine accepted_key_le l hsorted hreset (fun x y hx hy hle => ?_) key
    omega
  · refine accepted_key_le l hsorted hreset (fun x y hx hy hle => ?_) key
    omega

/-- The second check of a key is rejected for a full window, the third for the lockout. -/
theorem limiter_exact_three_checks :
    let calls : List Call := [⟨0, "a", .checkAndHit⟩, ⟨2, "b", .registerFailure⟩, ⟨4, "a", .checkAndHit⟩,
      ⟨6, "a", .checkAndHit⟩]
    ((RateLimiter.mk 1 5).log calls).map (·.answer) =
        [some (.ok 0), none, some (.error 250000000), some (.error 249999998)] ∧
      ((acceptances (((RateLimiter.mk 1 5).log calls).filter (·.call.key = "a"))).filter fun t =>
        2 ≤ t ∧ t < 2 + 5).length ≤ 1 ∧
      ((RateLimiter.mk 1 5).log calls).filter (·.call.key = "a") =
        (RateLimiter.mk 1 5).log (calls.filter (·.key = "a")) := by
  intro calls
  have hsorted : calls.Pairwise (·.now ≤ ·.now) := by decide
  have h := limiter_exact ⟨1, 5⟩ hsorted (by decide)
  exact ⟨by decide, (h.1 "a" 2).1, h.2.2 "a"⟩

end Noxara.RateLimit
