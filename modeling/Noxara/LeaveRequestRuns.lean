import Noxara.LeaveRequests
import Noxara.PublicIdTexts
import Noxara.TransactionRecheck

/-! Requests for leave, side by side. A handler reads a request before it locks it, so what it read may have changed
when it writes. Whatever the order, the ledger has no more than one debit of a request and no more than one credit
after it; where no handler acts on a status that has changed, it has what the status of the request says. -/
namespace Noxara.Leave

open Transaction Words
open Finance (Uuid Date Formats PublicId UuidCrate parsePublicId)
open Authz (TimeFormats)

/-- A request and the entries of the ledger that come of it. -/
structure RequestPart where
  row : Option LeaveRequestRow
  entries : List LedgerRow

/-- Post an entry whose key is not there yet. -/
def post (row : LedgerRow) (entries : List LedgerRow) : List LedgerRow :=
  if entries.any fun e => e.employeeId = row.employeeId ∧ e.leaveTypeId = row.leaveTypeId ∧
      e.sourceKey = row.sourceKey then entries
  else entries ++ [row]

section
variable [Formats]

/-- An entry that names the request, or that was posted under one of its keys. -/
def LedgerRow.Of (id : Uuid) (e : LedgerRow) : Prop :=
  e.leaveRequestId = some id ∨ e.sourceKey = some (.debit (requestPublicId id)) ∨
    e.sourceKey = some (.cancel (requestPublicId id))

instance (id : Uuid) (e : LedgerRow) : Decidable (e.Of id) := inferInstanceAs (Decidable (_ ∨ _))

def Db.entriesOf (s : Db) (id : Uuid) : List LedgerRow := s.ledger.filter (·.Of id)

def RequestDb.part (s : RequestDb) (id : Uuid) : RequestPart := ⟨s.requests.find? id, s.leave.entriesOf id⟩

def requestGuard (id : Uuid) (inv : RequestPart → Prop) : Guard RequestDb RequestLock RequestPart :=
  ⟨.request id, (·.part id), inv⟩

/-- What a submitted request with these entries becomes. -/
inductive Submitted (id : Uuid) (row : LeaveRequestRow) (es : List LedgerRow) : RequestPart → Prop
  | waits (approvalId : Option String) :
      Submitted id row es ⟨some { row with status := .pendingApproval, approvalId := approvalId }, es⟩
  | approves (approvalId decisionNote : Option String) (note : String) :
      Submitted id row es
        ⟨some { row with status := .approved, approvalId := approvalId, decisionNote := decisionNote },
          post (debitRow id row (-row.unitsMilli) note) es⟩

/-- A request that was seen in such a status. -/
def Read (seen : List RequestPart) (p : RequestStatus → Prop) : Prop :=
  ∃ part ∈ seen, ∃ row, part.row = some row ∧ p row.status

def LeaveRequestRow.Measured (row : LeaveRequestRow) : Prop := 0 < row.unitsMilli ∧ row.unitsMilli ≤ 2147483647

/-- What a handler that has seen these parts makes of the part that it locks. -/
inductive Moves (id : Uuid) (seen : List RequestPart) : RequestPart → RequestPart → Prop
  | opened {es row} (draft : row.status = .draft) (measured : row.Measured) :
    Moves id seen ⟨none, es⟩ ⟨some row, es⟩
  | openedSubmitted {es row next} (measured : row.Measured) (submitted : Submitted id row es next) :
      Moves id seen ⟨none, es⟩ next
  | submitted {row es next} (read : Read seen fun s => s = .draft ∨ s = .pendingApproval)
      (submitted : Submitted id row es next) : Moves id seen ⟨some row, es⟩ next
  | closed {row es} (status : RequestStatus) (note : Option String)
      (read : Read seen fun s => s = .draft ∨ s = .pendingApproval)
        (left : status = .rejected ∨ status = .cancelled) :
      Moves id seen ⟨some row, es⟩ ⟨some { row with status := status, decisionNote := note }, es⟩
  | returned {row es} (today : Date) (read : Read seen (· = .approved)) :
      Moves id seen ⟨some row, es⟩ ⟨some { row with status := .cancelled }, post (creditRow id row today) es⟩

/-- Nothing, a debit of what was asked for, or that and its credit. -/
inductive Entries (id : Uuid) (row : LeaveRequestRow) : List LedgerRow → Prop
  | none : Entries id row []
  | taken (note : String) : Entries id row [debitRow id row (-row.unitsMilli) note]
  | returned (note : String) (today : Date) :
      Entries id row [debitRow id row (-row.unitsMilli) note, creditRow id row today]

/-- An approved request has its debit; the other entries may be those of an earlier status. -/
def Sound (id : Uuid) : RequestPart → Prop
  | ⟨none, es⟩ => es = []
  | ⟨some row, es⟩ => row.Measured ∧ Entries id row es ∧ (row.status = .approved → es ≠ [])

/-- The entries are those of the status. -/
def Settled (id : Uuid) : RequestPart → Prop
  | ⟨none, es⟩ => es = []
  | ⟨some row, es⟩ => row.Measured ∧
    match row.status with
    | .approved => ∃ note, es = [debitRow id row (-row.unitsMilli) note]
    | .cancelled => es = [] ∨ ∃ note today, es = [debitRow id row (-row.unitsMilli) note, creditRow id row today]
    | _ => es = []

/-- What the entries come to. -/
def RequestPart.units (p : RequestPart) : Int := (p.entries.map (·.unitsMilli)).sum

variable {id : Uuid} {seen : List RequestPart} {base next : RequestPart} {row : LeaveRequestRow}
  {es : List LedgerRow}

theorem post_debit (note : String) (h : Entries id row es) :
    Entries id row (post (debitRow id row (-row.unitsMilli) note) es) ∧
      post (debitRow id row (-row.unitsMilli) note) es ≠ [] := by
  cases h with
  | none => exact ⟨.taken note, by simp [post]⟩
  | taken first =>
    have hthere : post (debitRow id row (-row.unitsMilli) note) [debitRow id row (-row.unitsMilli) first] =
        [debitRow id row (-row.unitsMilli) first] := by simp [post, debitRow]
    rw [hthere]
    exact ⟨.taken first, List.cons_ne_nil _ _⟩
  | returned first today =>
    have hthere : post (debitRow id row (-row.unitsMilli) note)
        [debitRow id row (-row.unitsMilli) first, creditRow id row today] =
        [debitRow id row (-row.unitsMilli) first, creditRow id row today] := by simp [post, debitRow]
    rw [hthere]
    exact ⟨.returned first today, List.cons_ne_nil _ _⟩

theorem post_credit (today : Date) (h : Entries id row es) (hne : es ≠ []) :
    ∃ note day, post (creditRow id row today) es =
      [debitRow id row (-row.unitsMilli) note, creditRow id row day] := by
  cases h with
  | none => exact absurd rfl hne
  | taken note => exact ⟨note, today, by simp [post, debitRow, creditRow]⟩
  | returned note day => exact ⟨note, day, by simp [post, debitRow, creditRow]⟩

theorem Entries.change (h : Entries id row es) (status : RequestStatus) (approvalId note : Option String) :
    Entries id { row with status := status, approvalId := approvalId, decisionNote := note } es := by
  cases h with
  | none => exact .none
  | taken first => exact .taken first
  | returned first today => exact .returned first today

def RequestPart.status (p : RequestPart) : Option RequestStatus := p.row.map (·.status)

omit [Formats] in
theorem Read.status {p : RequestStatus → Prop} (h : Read seen p)
    (hstill : ∀ part ∈ seen, part.status = (RequestPart.mk (some row) es).status) : p row.status := by
  obtain ⟨part, hmem, r, hr, hp⟩ := h
  have hstatus := hstill part hmem
  simp only [RequestPart.status, hr, Option.map_some, Option.some.injEq] at hstatus
  exact hstatus ▸ hp

theorem settled_of_submitted (hrow : row.Measured) (h : Submitted id row [] next) : Settled id next := by
  cases h with
  | waits approvalId => exact ⟨hrow, rfl⟩
  | approves approvalId decisionNote note => exact ⟨hrow, note, by simp [post, debitRow]⟩

/-- A handler that found the status it had read leaves the entries of the new status. -/
theorem Settled.moves (h : Settled id base) (hstill : ∀ part ∈ seen, part.status = base.status)
    (hmove : Moves id seen base next) : Settled id next := by
  -- A request that is open has no entries.
  have hopen : ∀ {row : LeaveRequestRow} {es}, Settled id ⟨some row, es⟩ →
      (row.status = .draft ∨ row.status = .pendingApproval) → es = [] := by
    rintro row es ⟨-, hes⟩ (hs | hs)
    · rwa [hs] at hes
    · rwa [hs] at hes
  cases hmove with
  | @opened es row hdraft hrow => exact ⟨hrow, by rw [hdraft]; exact h⟩
  | @openedSubmitted es row next hrow hsub =>
    obtain rfl : es = [] := h
    exact settled_of_submitted hrow hsub
  | submitted hread hsub =>
    obtain rfl := hopen h (hread.status hstill)
    exact settled_of_submitted h.1 hsub
  | closed status note hread hleft =>
    obtain rfl := hopen h (hread.status hstill)
    rcases hleft with rfl | rfl
    · exact ⟨h.1, rfl⟩
    · exact ⟨h.1, .inl rfl⟩
  | @returned row es today hread =>
    obtain ⟨hrow, hes⟩ := h
    rw [hread.status hstill] at hes
    obtain ⟨note, rfl⟩ := hes
    exact ⟨hrow, .inr ⟨note, today, by simp [post, debitRow, creditRow]⟩⟩

theorem sound_of_submitted (hrow : row.Measured) (hes : Entries id row es) (h : Submitted id row es next) :
    Sound id next ∧ (es ≠ [] → next.entries ≠ []) := by
  cases h with
  | waits approvalId => exact ⟨⟨hrow, hes.change _ _ _, nofun⟩, fun hne => hne⟩
  | approves approvalId decisionNote note =>
    obtain ⟨hposted, hne⟩ := post_debit note hes
    exact ⟨⟨hrow, hposted.change _ _ _, fun _ => hne⟩, fun _ => hne⟩

/-- A handler leaves the part sound and the debit where it was, if one that read an approval finds its debit. -/
theorem Sound.moves (h : Sound id base) (hdebit : Read seen (· = .approved) → base.entries ≠ [])
    (hmove : Moves id seen base next) : Sound id next ∧ (base.entries ≠ [] → next.entries ≠ []) := by
  cases hmove with
  | @opened es row hdraft hrow =>
    obtain rfl : es = [] := h
    exact ⟨⟨hrow, .none, by rw [hdraft]; nofun⟩, fun hne => hne⟩
  | @openedSubmitted es row next hrow hsub =>
    obtain rfl : es = [] := h
    exact sound_of_submitted hrow .none hsub
  | submitted hread hsub => exact sound_of_submitted h.1 h.2.1 hsub
  | closed status note hread hleft =>
    refine ⟨⟨h.1, h.2.1.change _ _ _, ?_⟩, fun hne => hne⟩
    rcases hleft with rfl | rfl <;> nofun
  | @returned row es today hread =>
    obtain ⟨note, day, hpost⟩ := post_credit today h.2.1 (hdebit hread)
    refine ⟨⟨h.1, ?_, nofun⟩, fun _ => ?_⟩
    · rw [hpost]
      exact .returned note day
    · rw [hpost]
      exact List.cons_ne_nil _ _

theorem Sound.units_eq (h : Sound id ⟨some row, es⟩) :
    (RequestPart.mk (some row) es).units = 0 ∨ (RequestPart.mk (some row) es).units = -row.unitsMilli := by
  obtain ⟨-, hes, -⟩ := h
  cases hes with
  | none => exact .inl rfl
  | taken note => exact .inr (by simp [RequestPart.units, debitRow])
  | returned note today => exact .inl (by simp [RequestPart.units, debitRow, creditRow])

theorem Settled.units_eq (h : Settled id ⟨some row, es⟩) :
    (RequestPart.mk (some row) es).units = if row.status = .approved then -row.unitsMilli else 0 := by
  obtain ⟨-, hes⟩ := h
  cases hs : row.status with
  | approved =>
    rw [hs] at hes
    obtain ⟨note, rfl⟩ := hes
    simp [RequestPart.units, debitRow]
  | cancelled =>
    rw [hs] at hes
    obtain rfl | ⟨note, today, rfl⟩ := hes
    · rfl
    · simp [RequestPart.units, debitRow, creditRow]
  | draft | pendingApproval | rejected =>
    rw [hs] at hes
    subst hes
    rfl

/-- The handlers may make these moves, and find requests that were measured. -/
structure Permits (id : Uuid) (B : List RequestPart → RequestPart → Prop)
    (G : RequestPart → RequestPart → Prop) :
    Prop where
  moves : ∀ {seen base next}, B seen base → Moves id seen base next → G base next
  measured : ∀ {seen row es}, B seen ⟨some row, es⟩ → row.Measured

variable {inv : RequestPart → Prop} {B : List RequestPart → RequestPart → Prop}
  {G : RequestPart → RequestPart → Prop} {K : RequestPart → Prop} {α β : Type} {rid : Uuid} {posted : LedgerRow}

theorem spares_onLeaveTables {p : Tx α} (hp : p.Writes (Prog.Keeps (·.entriesOf id))) :
    (onLeaveTables p).Spares (requestGuard id inv) := by
  unfold onLeaveTables
  induction p with
  | pure a => trivial
  | fail e => trivial
  | stmt l w n ih =>
    refine fun v => ⟨fun hk => ?_, fun s => ?_, ih _ (hp v.leave).2⟩
    · obtain ⟨_, -, hl⟩ := List.mem_map.mp hk
      cases hl
    · exact congrArg (RequestPart.mk _) ((hp v.leave).1 s.leave)

theorem entriesOf_appended (s : Db) (id : Uuid) (row : LedgerRow) :
    (s.appended [row]).entriesOf id = if row.Of id then s.entriesOf id ++ [row] else s.entriesOf id := by
  unfold Db.entriesOf Db.appended
  rw [List.filter_append]
  split_ifs with h
  · rw [List.filter_cons_of_pos (by simpa using h), List.filter_nil]
  · rw [List.filter_cons_of_neg (by simpa using h), List.filter_nil, List.append_nil]

theorem writes_insertLedgerRow (h : ¬posted.Of id) :
    (insertLedgerRow posted).Writes (Prog.Keeps (·.entriesOf id)) :=
  Prog.writes_executeReturning (.id _) fun _ _ _ s => (entriesOf_appended s id posted).trans (if_neg h)

theorem writes_insertLedgerEntry (h : ¬posted.Of id) :
    (insertLedgerEntry posted).Writes (Prog.Keeps (·.entriesOf id)) := by
  unfold insertLedgerEntry
  split
  · exact writes_insertLedgerRow h
  · refine .bind (Prog.writes_query (.id _) _) fun found => ?_
    cases found with
    | none => exact writes_insertLedgerRow h
    | some row => trivial

/-- Entries under one of the keys of the request are among its entries. -/
theorem isSome_rowByKey {key : SourceKey} (hkey : posted.sourceKey = some key)
    (hof : ∀ e : LedgerRow, e.sourceKey = posted.sourceKey → e.Of id) (s : Db) :
    (s.rowByKey posted.employeeId posted.leaveTypeId key).isSome = true ↔
      ∃ e ∈ s.entriesOf id, e.employeeId = posted.employeeId ∧ e.leaveTypeId = posted.leaveTypeId ∧
        e.sourceKey = posted.sourceKey := by
  rw [Db.rowByKey, List.find?_isSome]
  unfold Db.rowsOf Db.entriesOf
  simp only [List.mem_filter, decide_eq_true_eq, hkey] at hof ⊢
  constructor
  · rintro ⟨e, ⟨hmem, hemp, htype⟩, hk⟩
    exact ⟨e, ⟨hmem, hof e hk⟩, hemp, htype, hk⟩
  · rintro ⟨e, ⟨hmem, -⟩, hemp, htype, hk⟩
    exact ⟨e, ⟨hmem, hemp, htype⟩, hk⟩

omit [Formats] in
theorem post_eq (row : LedgerRow) (es : List LedgerRow) :
    post row es = if ∃ e ∈ es, e.employeeId = row.employeeId ∧ e.leaveTypeId = row.leaveTypeId ∧
      e.sourceKey = row.sourceKey then es else es ++ [row] := by
  unfold post
  simp only [List.any_eq_true, decide_eq_true_eq]

omit [Formats] in
theorem onLeaveTables_insertLedgerEntry {key : SourceKey} (hkey : posted.sourceKey = some key) :
    onLeaveTables (insertLedgerEntry posted) =
      (do
        let existing ← .query fun v => v.leave.rowByKey posted.employeeId posted.leaveTypeId key
        match existing with
        | some found => return found
        | none => onLeaveTables (insertLedgerRow posted)) := by
  unfold insertLedgerEntry
  rw [hkey]
  refine congrArg (Prog.stmt _ _) (funext fun v => ?_)
  change ((Prog.mapError Ended.exit (match v.leave.rowByKey posted.employeeId posted.leaveTypeId key with
    | some found => pure found
    | none => insertLedgerRow posted)).zoom _ _ _ : RequestTx LedgerRow) = match
      v.leave.rowByKey posted.employeeId posted.leaveTypeId key with
    | some found => pure found
    | none => onLeaveTables (insertLedgerRow posted)
  split <;> rfl

theorem held_post_bind {key : SourceKey} (hkey : posted.sourceKey = some key)
    (hof : ∀ e : LedgerRow, e.sourceKey = posted.sourceKey → e.Of id) {f : LedgerRow → RequestTx α}
    (hf : ∀ e, (f e).Held (·.part id) K ⟨base.row, post posted base.entries⟩) :
    (onLeaveTables (insertLedgerEntry posted) >>= f).Held (·.part id) K base := by
  have hentries : ∀ v : RequestDb, v.part id = base → v.leave.entriesOf id = base.entries := by
    rintro v rfl
    rfl
  rw [onLeaveTables_insertLedgerEntry hkey, bind_assoc]
  refine .query_bind fun v hv => ?_
  have hfound := isSome_rowByKey hkey hof v.leave
  rw [hentries v hv] at hfound
  cases hrow : v.leave.rowByKey posted.employeeId posted.leaveTypeId key with
  | some e =>
    rw [hrow] at hfound
    have hf := hf e
    rw [post_eq, if_pos (hfound.mp rfl)] at hf
    exact hf
  | none =>
    rw [hrow] at hfound
    have hnone := fun h => Bool.false_ne_true (hfound.mpr h)
    intro u hu
    have hfree : ¬(u.leave.rowByKey posted.employeeId posted.leaveTypeId key).isSome = true := fun h =>
      hnone (by rw [← hentries u hu]; exact (isSome_rowByKey hkey hof u.leave).mp h)
    refine ⟨⟨base.row, post posted base.entries⟩, fun s hs => ?_, ?_⟩
    · simp only [hkey, Option.any_some, hfree]
      change RequestPart.mk (s.requests.find? id) ((s.leave.appended [posted]).entriesOf id) = _
      rw [entriesOf_appended, if_pos (hof posted rfl), post_eq, if_neg hnone, hentries s hs, ← hs]
      rfl
    · simp only [hkey, Option.any_some, hfree]
      exact hf posted

theorem requestPublicId_inj (hcrate : UuidCrate) (hid : id < 2 ^ 128) (hrid : rid < 2 ^ 128)
    (h : requestPublicId rid = requestPublicId id) : rid = id := by
  have hparse := PublicId.fromStr_asStr hcrate .leaveRequest hrid
  unfold requestPublicId at h
  rw [h, PublicId.fromStr_asStr hcrate .leaveRequest hid] at hparse
  cases hparse
  rfl

theorem parse_requestPublicId (hcrate : UuidCrate) (hrid : rid < 2 ^ 128) :
    parsePublicId .leaveRequest (requestPublicId rid) = .ok rid :=
  Finance.parseIdOfKind_ok.mpr (PublicId.fromStr_asStr hcrate .leaveRequest hrid)

theorem lt_of_parse (hcrate : UuidCrate) {raw : String} {f : Finance.AppError → Ended}
    (h : (parsePublicId .leaveRequest raw).mapError f = .ok rid) : rid < 2 ^ 128 := by
  have hparse := Finance.parseIdOfKind_ok.mp (Finance.mapError_ok.mp h)
  obtain ⟨rest, -, huuid⟩ := PublicId.fromStr_eq_ok.mp hparse
  exact ((hcrate.parse_iff rest _).mp huuid).lt

theorem not_of_other (hcrate : UuidCrate) (hid : id < 2 ^ 128) (hrid : rid < 2 ^ 128) (hne : rid ≠ id)
    (hlink : posted.leaveRequestId = some rid)
    (hkey : posted.sourceKey = some (.debit (requestPublicId rid)) ∨
      posted.sourceKey = some (.cancel (requestPublicId rid))) : ¬posted.Of id := by
  have hdiffer : requestPublicId rid ≠ requestPublicId id := fun h => hne (requestPublicId_inj hcrate hid hrid h)
  unfold LedgerRow.Of
  rcases hkey with hkey | hkey <;> simp [hlink, hkey, hne, hdiffer]

theorem looks_update_bind {change : LeaveRequestRow → LeaveRequestRow} {f : LeaveRequestRow → RequestTx α}
    (hother : rid ≠ id → ∀ r, (f r).Spares (requestGuard id inv))
    (hsame : rid = id → ∀ row es, B seen ⟨some row, es⟩ →
      (f (change row)).Held (·.part id) (G ⟨some row, es⟩) ⟨some (change row), es⟩) :
    (updateLeaveRequest rid change >>= f).Looks (requestGuard id inv) B G seen := by
  by_cases hid : rid = id
  · subst hid
    refine .executeReturning_bind (fun _ => List.mem_cons_self) fun v r hB hr => ?_
    cases hrow : v.requests.find? rid with
    | none =>
      rw [hrow] at hr
      cases hr
    | some row =>
      rw [hrow] at hr
      cases hr
      have hpart : v.part rid = ⟨some row, v.leave.entriesOf rid⟩ := congrArg (RequestPart.mk · _) hrow
      have hbase : (requestGuard rid inv).part v = ⟨some row, v.leave.entriesOf rid⟩ := hpart
      rw [hbase] at hB ⊢
      refine ⟨_, fun s hs => ?_, hsame rfl row _ hB⟩
      have hsrow : s.requests.find? rid = some row := congrArg RequestPart.row hs
      have hses : s.leave.entriesOf rid = v.leave.entriesOf rid := congrArg RequestPart.entries hs
      change RequestPart.mk ((s.requests.modify rid change).find? rid) (s.leave.entriesOf rid) = _
      rw [Table.find?_modify_self, hsrow, hses]
      rfl
  · refine .spares_bind (fun v => ⟨?_, fun s => ?_, ?_⟩) fun r _ => .of_spares (hother hid r)
    · simpa [requestGuard] using Ne.symm hid
    · dsimp only
      split
      · change RequestPart.mk ((s.requests.modify rid change).find? id) (s.leave.entriesOf id) = _
        rw [Table.find?_modify_ne _ _ (Ne.symm hid)]
        rfl
      · rfl
    · dsimp only
      split <;> trivial

theorem looks_insert_bind {f : Unit → RequestTx α}
    (hother : rid ≠ id → ∀ seen, (f ()).Looks (requestGuard id inv) B G seen)
    (hsame : rid = id → ∀ es, B seen ⟨none, es⟩ →
      (f ()).Held (·.part id) (G ⟨none, es⟩) ⟨some row, es⟩) :
    (insertLeaveRequest rid row >>= f).Looks (requestGuard id inv) B G seen := by
  by_cases hid : rid = id
  · subst hid
    refine .execute_bind (fun _ => List.mem_cons_self) fun v hB hfree => ?_
    have hnone : v.requests.find? rid = none := by
      refine Table.find?_eq_none.mpr fun hmem => ?_
      rw [if_pos hmem] at hfree
      cases hfree
    have hbase : (requestGuard rid inv).part v = ⟨none, v.leave.entriesOf rid⟩ :=
      congrArg (RequestPart.mk · _) hnone
    rw [hbase] at hB ⊢
    refine ⟨_, fun s hs => ?_, hsame rfl _ hB⟩
    have hsnone : s.requests.find? rid = none := congrArg RequestPart.row hs
    have hses : s.leave.entriesOf rid = v.leave.entriesOf rid := congrArg RequestPart.entries hs
    change RequestPart.mk ((s.requests.insert rid row).find? rid) (s.leave.entriesOf rid) = _
    rw [Table.find?_insert_self hsnone, hses]
  · refine .spares_bind (.execute (fun _ => by simpa [requestGuard] using Ne.symm hid) fun _ s => ?_) fun _ _ =>
      hother hid _
    change RequestPart.mk ((s.requests.insert rid row).find? id) (s.leave.entriesOf id) = _
    rw [Table.find?_insert_ne _ _ (Ne.symm hid)]
    rfl

theorem held_update_bind {change : LeaveRequestRow → LeaveRequestRow} {f : LeaveRequestRow → RequestTx α}
    (hf : (f (change row)).Held (·.part id) K ⟨some (change row), es⟩) :
    (updateLeaveRequest id change >>= f).Held (·.part id) K ⟨some row, es⟩ := by
  intro v hv
  have hrow : v.requests.find? id = some row := congrArg RequestPart.row hv
  refine ⟨⟨some (change row), es⟩, fun s hs => ?_, ?_⟩
  · have hsrow : s.requests.find? id = some row := congrArg RequestPart.row hs
    have hses : s.leave.entriesOf id = es := congrArg RequestPart.entries hs
    simp only [hrow]
    change RequestPart.mk ((s.requests.modify id change).find? id) (s.leave.entriesOf id) = _
    rw [Table.find?_modify_self, hsrow, hses]
    rfl
  · simp only [hrow]
    exact hf

theorem spares_keepAnswer {ctx : RequestCtx} {scope : String} {answer : Answer} :
    (keepAnswer ctx scope answer).Spares (requestGuard id inv) := by
  unfold keepAnswer
  split
  · trivial
  · exact .execute (fun _ => by simp [requestGuard]) fun _ _ => rfl

theorem spares_moveEmployee {e : Uuid} {old new : EmployeeStatus} :
    (moveEmployee e old new).Spares (requestGuard id inv) :=
  .execute (fun _ => by simp [requestGuard]) fun _ _ => rfl

theorem spares_markOnLeave {today : Date} : (markOnLeave row today).Spares (requestGuard id inv) := by
  unfold markOnLeave
  split_ifs
  · exact spares_moveEmployee
  · trivial

theorem spares_maybeClearOnLeave {e : Uuid} {today : Date} :
    (maybeClearOnLeave e today).Spares (requestGuard id inv) := by
  refine .bind (.query _) fun current => ?_
  split_ifs
  · exact spares_moveEmployee
  · trivial

theorem spares_checkBalance {ctx : RequestCtx} {e l : Uuid} {lt : LeaveTypeRow} {row : LeaveRequestRow} :
    (checkBalance ctx e l lt row).Spares (requestGuard id inv) := by
  unfold checkBalance
  split_ifs
  · trivial
  · exact .bind (spares_onLeaveTables (Prog.writes_query (.id _) _)) fun _ => .bind (.okOr _ _) fun _ => .require

theorem spares_postDebit {ctx : RequestCtx} {row : LeaveRequestRow} {note : String} (hcrate : UuidCrate)
    (hid : id < 2 ^ 128) (hrid : rid < 2 ^ 128) (hne : rid ≠ id) :
    (postDebit ctx rid row note).Spares (requestGuard id inv) := by
  refine .bind (.okOr _ _) fun _ => .bind (spares_onLeaveTables (writes_insertLedgerEntry ?_)) fun _ => trivial
  exact not_of_other hcrate hid hrid hne rfl (.inl rfl)

theorem held_postDebit_bind {ctx : RequestCtx} {note : String} {f : Unit → RequestTx α} (hrow : row.Measured)
    (hf : (f ()).Held (·.part id) K ⟨base.row, post (debitRow id row (-row.unitsMilli) note) base.entries⟩) :
    (postDebit ctx id row note >>= f).Held (·.part id) K base := by
  unfold postDebit
  rw [bind_assoc]
  refine .okOr_bind fun units hunits => ?_
  -- The units of a request can be negated.
  have hneg := Build.arith_of_has (b := ctx.build) (has_i32.mpr (by unfold LeaveRequestRow.Measured at hrow; omega) :
    i32.Has (-row.unitsMilli))
  obtain rfl := Option.some.inj (hneg.symm.trans hunits)
  rw [bind_assoc]
  exact held_post_bind rfl (fun e he => .inr (.inl he)) fun _ => hf

omit [Formats] in
/-- A duration fits an `i32`. -/
theorem leaveUnitsMilli_has {b : Build} {last : Date} {r : LeaveRange} {fuel : ℕ} {v : Int}
    (h : leaveUnitsMilli b last r fuel = some (some v)) : i32.Has v := by
  have hloop : ∀ {fuel d total}, i32.Has total → countDays b last r fuel d total = some (some v) → i32.Has v := by
    intro fuel
    induction fuel with
    | zero => nofun
    | succ fuel ih =>
      intro d total htotal h
      rw [countDays] at h
      split_ifs at h
      · exact ih htotal h
      · cases hsum : b.arith i32 (total + r.dayUnits d) with
        | none =>
          rw [hsum] at h
          cases h
        | some sum =>
          have hhas : i32.Has sum := Build.arith_some hsum ▸ Word.has_wrap _ _
          rw [hsum] at h
          dsimp only at h
          split at h
          · exact ih hhas h
          · cases h
            exact hhas
      · cases h
        exact htotal
  unfold leaveUnitsMilli at h
  split_ifs at h
  · cases h
    decide
  · exact hloop (by decide) h

section
variable (hcrate : UuidCrate) (hid : id < 2 ^ 128)
include hcrate hid

theorem looks_doSubmit {ctx : RequestCtx} {l e : Uuid} {lt : LeaveTypeRow × TypeRules} (hp : Permits id B G)
    (hrid : rid < 2 ^ 128) (hread : rid = id → Read seen (· = .draft)) :
    (doSubmit ctx (requestPublicId rid) l lt e).Looks (requestGuard id inv) B G seen := by
  have hopen : rid = id → ∀ more, Read (more ++ seen) fun s => s = .draft ∨ s = .pendingApproval := by
    rintro he more
    obtain ⟨part, hmem, row, hrow, hs⟩ := hread he
    exact ⟨part, List.mem_append_right _ hmem, row, hrow, .inl hs⟩
  unfold doSubmit
  rw [parse_requestPublicId hcrate hrid]
  refine .ofExcept_bind fun r hr => ?_
  cases hr
  refine .spares_bind (.bind (.query _) fun _ => .okOr _ _) fun row more => ?_
  refine .spares_bind spares_checkBalance fun _ more' => ?_
  rw [← List.append_assoc]
  split_ifs
  · refine looks_update_bind (fun _ _ => trivial) fun he row es hB => ?_
    exact hp.moves hB (.submitted (hopen he _) (.waits _))
  · refine looks_update_bind (fun hne _ => .bind (spares_postDebit hcrate hid hrid hne) fun _ => trivial)
      fun he row es hB => ?_
    subst he
    exact held_postDebit_bind (hp.measured hB : row.Measured)
      (hp.moves hB (.submitted (hopen rfl _) (.approves _ row.decisionNote _)))

/-- Under the lock, for the row that was just written. -/
theorem held_doSubmit {ctx : RequestCtx} {l e : Uuid} {lt : LeaveTypeRow × TypeRules} (hrow : row.Measured)
    (hK : ∀ next, Submitted id row es next → K next) :
    (doSubmit ctx (requestPublicId id) l lt e).Held (·.part id) K ⟨some row, es⟩ := by
  unfold doSubmit
  rw [parse_requestPublicId hcrate hid]
  refine .ofExcept_bind fun r hr => ?_
  cases hr
  refine .bind (.bind (Prog.writes_query (.id _) _) fun _ => Prog.writes_okOr _ _) fun _ => ?_
  refine .bind (Prog.Spares.writes (g := requestGuard id fun _ => True) spares_checkBalance) fun _ => ?_
  split_ifs
  · exact held_update_bind (hK _ (.waits _))
  · exact held_update_bind (held_postDebit_bind hrow (hK _ (.approves _ row.decisionNote _)))

theorem looks_createFor {ctx : RequestCtx} {principal : Authz.Principal} {start stop : Date}
    {startPeriod endPeriod : Period} {l : Uuid} {body : CreateLeaveRequest} (hp : Permits id B G) :
    (createFor ctx principal start stop startPeriod endPeriod l body).Looks (requestGuard id inv) B G seen := by
  have hresolve : (resolveEmployee ctx body.employeeId).Spares (requestGuard id inv) := by
    unfold resolveEmployee
    split
    · exact .bind (.query _) fun _ => .okOr _ _
    · exact .bind (.query _) fun _ => .okOr _ _
    · exact .bind (.ofExcept _) fun _ => .bind (.query _) fun _ => .okOr _ _
  have hsubject : ∀ emp, (checkSubject ctx principal emp).Spares (requestGuard id inv) := by
    intro emp
    unfold checkSubject
    split_ifs
    · trivial
    · exact .bind (.ofExcept _) fun _ => .require
  unfold createFor
  refine .spares_bind hresolve fun emp _ => .spares_bind (hsubject emp) fun _ _ => ?_
  refine .query_bind fun _ => .okOr_bind fun lt _ => .require_bind fun _ => .query_bind fun _ => ?_
  refine .okOr_bind fun counted hcounted => .okOr_bind fun units hunits => .require_bind fun hpos => ?_
  subst hunits
  have hrow : ∀ range, (draftRequest emp l range units body).Measured := fun _ =>
    ⟨hpos, (has_i32.mp (leaveUnitsMilli_has hcounted)).2⟩
  refine looks_insert_bind (fun hnew seen => ?_) fun hnew es hB => ?_
  · split_ifs
    · exact looks_doSubmit hcrate hid hp ctx.newId_lt fun he => absurd he hnew
    · trivial
  · split_ifs
    · rw [hnew]
      exact held_doSubmit hcrate hid (hrow _) fun next hsub => hp.moves hB (.openedSubmitted (hrow _) hsub)
    · exact hp.moves hB (.opened rfl (hrow _))

omit hcrate hid in
theorem looks_fetch_bind {f : LeaveRequestRow → RequestTx α}
    (hf : ∀ (v : RequestDb) row, v.requests.find? rid = some row →
      (f row).Looks (requestGuard id inv) B G (v.part id :: seen)) :
    (fetchLeaveRequest rid >>= f).Looks (requestGuard id inv) B G seen := by
  unfold fetchLeaveRequest
  rw [bind_assoc]
  refine .query_bind fun v => .okOr_bind fun row hrow => ?_
  exact hf v row (Option.filter_eq_some_iff.mp hrow).1

omit hcrate hid in
/-- What a handler reads of the request is what its part shows. -/
theorem read_of_fetched {v : RequestDb} {p : RequestStatus → Prop} (hrow : v.requests.find? rid = some row)
    (hp : p row.status) : rid = id → ∀ more, Read (more ++ v.part id :: seen) p := by
  rintro rfl more
  exact ⟨_, List.mem_append_right _ List.mem_cons_self, row, hrow, hp⟩

omit hcrate hid in
theorem looks_answeredOnce {ctx : RequestCtx} {scope : String} {p : RequestTx Answer}
    (hp : ∀ seen, p.Looks (requestGuard id inv) B G seen) :
    (answeredOnce ctx scope p).Looks (requestGuard id inv) B G seen := by
  refine .query_bind fun v => ?_
  split
  · trivial
  · exact .bind_spares (hp _) fun _ => .bind spares_keepAnswer fun _ => trivial

theorem looks_submitRow {ctx : RequestCtx} (hp : Permits id B G) (hrid : rid < 2 ^ 128) :
    (submitRow ctx rid).Looks (requestGuard id inv) B G seen := by
  refine looks_fetch_bind fun v row hrow => .ofExcept_bind fun _ _ => .require_bind fun hdraft => ?_
  refine .query_bind fun u => .okOr_bind fun emp _ => .query_bind fun w => .okOr_bind fun lt _ => ?_
  exact looks_doSubmit hcrate hid hp hrid fun he => read_of_fetched hrow hdraft he [w.part id, u.part id]

theorem spares_creditRow {today : Date} (hrid : rid < 2 ^ 128) (hne : rid ≠ id) :
    (onLeaveTables (insertLedgerEntry (creditRow rid row today))).Spares (requestGuard id inv) :=
  spares_onLeaveTables (writes_insertLedgerEntry (not_of_other hcrate hid hrid hne rfl (.inr rfl)))

variable [TimeFormats]

theorem looks_cancel {ctx : RequestCtx} {raw : String} (hp : Permits id B G) :
    (cancelLeaveRequest ctx raw).Looks (requestGuard id inv) B G seen := by
  refine .ofExcept_bind fun rid hparse => .ofExcept_bind fun _ _ => .ofExcept_bind fun _ _ => ?_
  have hrid := lt_of_parse hcrate hparse
  refine looks_fetch_bind fun v row hrow => .ofExcept_bind fun _ _ => .require_bind fun hstatus => ?_
  refine looks_update_bind (fun hne r => ?_) fun he now es hB => ?_
  · split_ifs
    · exact .bind (spares_creditRow hcrate hid hrid hne) fun _ => .bind spares_maybeClearOnLeave fun _ => trivial
    · trivial
  · split_ifs with happroved
    · subst he
      refine held_post_bind rfl (fun e he => .inr (.inr he)) fun _ => ?_
      refine .bind (Prog.Spares.writes (g := requestGuard rid fun _ => True) spares_maybeClearOnLeave) fun _ => ?_
      exact hp.moves hB (.returned _ (read_of_fetched hrow happroved rfl []))
    · refine hp.moves hB (.closed .cancelled now.decisionNote (read_of_fetched hrow ?_ he []) (.inr rfl))
      simpa [happroved] using hstatus

theorem looks_decide {ctx : RequestCtx} {raw : String} {body : DecideLeaveRequest} (hp : Permits id B G) :
    (decideLeaveRequest ctx raw body).Looks (requestGuard id inv) B G seen := by
  refine .ofExcept_bind fun rid hparse => .ofExcept_bind fun _ _ => .ofExcept_bind fun _ _ => ?_
  have hrid := lt_of_parse hcrate hparse
  refine looks_fetch_bind fun v row hrow => .query_bind fun u => .okOr_bind fun emp _ => .require_bind fun _ => ?_
  split_ifs with hpending happrove
  · refine looks_update_bind (fun hne r => ?_) fun he now es hB => ?_
    · exact .bind (spares_postDebit hcrate hid hrid hne) fun _ => .bind spares_markOnLeave fun _ => trivial
    · subst he
      refine held_postDebit_bind (hp.measured hB : now.Measured) ?_
      refine .bind (Prog.Spares.writes (g := requestGuard rid fun _ => True) spares_markOnLeave) fun _ => ?_
      exact hp.moves hB (.submitted (read_of_fetched hrow (.inr hpending) rfl [u.part _])
        (.approves now.approvalId _ _))
  · refine looks_update_bind (fun _ _ => trivial) fun he now es hB => ?_
    exact hp.moves hB (.closed .rejected _ (read_of_fetched hrow (.inr hpending) he [u.part id]) (.inl rfl))
  · exact .require_bind fun _ => trivial
  · exact .require_bind fun _ => trivial

omit hcrate hid in
theorem looks_accrue {ctx : RequestCtx} {body : AccrueLeave} :
    (accrueLeave ctx body).Looks (requestGuard id inv) B G seen := by
  refine .ofExcept_bind fun _ _ => .ofExcept_bind fun _ _ => .require_bind fun _ => .ofExcept_bind fun _ _ => ?_
  refine .ofExcept_bind fun _ _ => .ofExcept_bind fun _ _ => looks_answeredOnce fun _ => .of_spares ?_
  refine .bind (.query _) fun _ => .bind (.okOr _ _) fun _ => .bind (.query _) fun _ => .bind (.okOr _ _) fun _ => ?_
  refine .bind .require fun _ => .bind (spares_onLeaveTables (writes_insertLedgerEntry ?_)) fun _ => trivial
  simp [LedgerRow.Of]

omit hcrate hid [TimeFormats] in
theorem writes_carryForwardAll {ctx : CarryForwardCtx} {year : Int}
    (pairs : List ((Uuid × EmployeeRow) × (Uuid × LeaveTypeRow))) (posted : Int) :
    (carryForwardAll ctx year pairs posted).Writes (Prog.Keeps (·.entriesOf id)) := by
  have hcount : ∀ (row : LedgerRow) (n : Int), ¬row.Of id →
      (postCounted ctx row n).Writes (Prog.Keeps (·.entriesOf id)) := fun row n h =>
    .bind (writes_insertLedgerEntry h) fun _ => Prog.writes_okOr _ _
  induction pairs generalizing posted with
  | nil => trivial
  | cons pair pairs ih =>
    refine .bind ?_ fun posted => ih posted
    unfold carryForward
    split_ifs
    · trivial
    · refine .bind (Prog.writes_query (.id _) _) fun _ => .bind (Prog.writes_okOr _ _) fun bal => .bind ?_ fun n => ?_
      · unfold zeroBalance
        split_ifs
        · trivial
        · exact .bind (Prog.writes_okOr _ _) fun _ => hcount _ _ (by simp [LedgerRow.Of, zeroRow])
      · refine .bind (Prog.writes_okOr _ _) fun credit => ?_
        split
        · exact hcount _ _ (by simp [LedgerRow.Of, carriedRow])
        · trivial

omit hcrate hid in
theorem writes_runCarryForward {ctx : CarryForwardCtx} {year : Int} :
    (runCarryForward ctx year).Writes (Prog.Keeps (·.entriesOf id)) := by
  refine .bind Prog.writes_require fun _ => .bind (Prog.writes_ofExcept _) fun _ => ?_
  refine .bind (Prog.writes_ofExcept _) fun _ => ?_
  refine .bind Prog.writes_require fun _ => AnswerTable.writes_replayOr (.id _) ?_
  refine .bind (Prog.writes_query (.id _) _) fun existing => ?_
  split
  · trivial
  · refine .bind (Prog.writes_query (.id _) _) fun _ => .bind (Prog.writes_query (.id _) _) fun _ => ?_
    refine .bind (writes_carryForwardAll _ _) fun _ => ?_
    refine .bind (Prog.writes_execute (.id _) fun _ _ _ => rfl) fun _ => ?_
    exact .bind (AnswerTable.writes_record (.id _) (fun _ _ _ _ => rfl) _ _ _) fun _ => trivial

theorem looks_body (hp : Permits id B G) (o : LeaveOp) : o.body.Looks (requestGuard id inv) B G seen := by
  cases o with
  | create ctx body =>
    refine .ofExcept_bind fun _ _ => .ofExcept_bind fun _ _ => .ofExcept_bind fun _ _ => .ofExcept_bind fun _ _ => ?_
    refine .require_bind fun _ => .ofExcept_bind fun _ _ => .ofExcept_bind fun _ _ => .ofExcept_bind fun _ _ => ?_
    exact looks_answeredOnce fun _ => looks_createFor hcrate hid hp
  | submit ctx raw =>
    refine .ofExcept_bind fun rid hparse => .ofExcept_bind fun _ _ => .ofExcept_bind fun _ _ => ?_
    exact looks_answeredOnce fun _ => looks_submitRow hcrate hid hp (lt_of_parse hcrate hparse)
  | cancel ctx raw => exact looks_cancel hcrate hid hp
  | decide ctx raw body => exact looks_decide hcrate hid hp
  | accrue ctx body => exact looks_accrue
  | carryForward ctx year =>
    exact .of_spares (.bind (spares_onLeaveTables writes_runCarryForward) fun _ => trivial)

end

section
variable [TimeFormats] {ι : Type} [DecidableEq ι] {ops : ι → LeaveOp} {db : RequestDb}

/-- A transaction finds the request in the status in which it saw it. -/
def StatusStays (seen : List RequestPart) (base : RequestPart) : Prop := ∀ part ∈ seen, part.status = base.status

/-- Where no handler acts on a status that has changed, the ledger has what the status says: an approved request
takes its units, and any other request nothing. -/
theorem leave_ledger_follows_status (hcrate : UuidCrate) (hid : id < 2 ^ 128) (hdb : Settled id (db.part id))
    {W : Watch ι RequestDb RequestLock Ended Answer RequestPart}
    (hW : Watch.Reached (requestGuard id (Settled id)) (fun _ => StatusStays) (fun i => (ops i).body) db W) :
    Settled id (W.config.db.part id) ∧ ∀ row, W.config.db.requests.find? id = some row →
      (W.config.db.part id).units = if row.status = .approved then -row.unitsMilli else 0 := by
  have hsettled : Settled id (W.config.db.part id) := by
    refine hW.inv (G := fun _ _ b => Settled id b) ⟨fun i => ?_, hdb, fun _ _ _ _ h => h⟩
    have hp : Permits id (fun seen base => Settled id base ∧ StatusStays seen base) fun _ b => Settled id b :=
      ⟨fun h hmove => h.1.moves h.2 hmove, fun h => h.1.1⟩
    have hlooks : (ops i).body.Looks (requestGuard id (Settled id)) _ _ [] := looks_body hcrate hid hp (ops i)
    exact hlooks.rechecks (fun _ _ hbase _ hA => ⟨hbase, hA⟩) (List.forall_mem_nil _)
  refine ⟨hsettled, fun row hrow => ?_⟩
  have hpart : W.config.db.part id = ⟨some row, (W.config.db.part id).entries⟩ :=
    congrArg (RequestPart.mk · (W.config.db.part id).entries) hrow
  rw [hpart] at hsettled ⊢
  exact hsettled.units_eq

def DebitStays (id : Uuid) (seen : List RequestPart) (base : RequestPart) : Prop :=
  ∀ part ∈ seen, Sound id part → part.status = some .approved → base.entries ≠ []

/-- Whatever the order, a request is debited once at most, is credited only after that, and is debited while it is
approved. -/
theorem leave_debited_once (hcrate : UuidCrate) (hdb : ∀ id < 2 ^ 128, Sound id (db.part id))
    {c : Config ι RequestDb RequestLock Ended Answer} (hc : Reachable (fun i => (ops i).body) db c) :
    ∀ id < 2 ^ 128, Sound id (c.db.part id) ∧ ∀ row, c.db.requests.find? id = some row →
      (c.db.part id).units = 0 ∨ (c.db.part id).units = -row.unitsMilli := by
  intro id hid
  obtain ⟨W, hW, rfl⟩ := Watch.exists_reached (g := requestGuard id (Sound id)) hc
  have hp : Permits id (fun seen base => Sound id base ∧ (Read seen (· = .approved) → base.entries ≠ []))
      fun a b => Sound id b ∧ (a.entries ≠ [] → b.entries ≠ []) :=
    ⟨fun h hmove => h.1.moves h.2 hmove, fun h => h.1.1⟩
  have hlooks : ∀ i, (ops i).body.Looks (requestGuard id (Sound id)) _ _ [] :=
    fun i => looks_body hcrate hid hp (ops i)
  have hdisciplined : Watch.Disciplined (requestGuard id (Sound id)) (fun _ => DebitStays id)
      (fun _ a b => Sound id b ∧ (a.entries ≠ [] → b.entries ≠ [])) (fun i => (ops i).body) db := by
    refine ⟨fun i => (hlooks i).rechecks (fun seen base hbase hseen hA => ⟨hbase, ?_⟩)
      (List.forall_mem_nil _), hdb id hid,
      fun _ _ _ _ h => h.1⟩
    rintro ⟨part, hmem, row, hrow, hs⟩
    exact hA part hmem (hseen part hmem) (by rw [RequestPart.status, hrow, ← hs]; rfl)
  -- The debit of an approval that was seen is not taken back.
  have hstays : Watch.Reached (requestGuard id (Sound id)) (fun _ => DebitStays id) (fun i => (ops i).body) db W := by
    refine hW.strengthen (B := fun _ => DebitStays id) (fun _ _ _ => (iff_of_eq (true_and _)).symm) ?_
    intro V hV i t hrun hfree
    have hseen := hV.remembers hdisciplined (R := fun a b => Sound id a → a.status = some .approved →
      b.entries ≠ [])
      (hlooks i).reads (fun part hsound hs => ?_) (fun _ _ _ _ _ hR hG h hs => hG.2 (hR h hs)) t hrun hfree
    · exact hseen.2.2
    · obtain ⟨_ | row, es⟩ := part
      · cases hs
      · exact hsound.2.2 (Option.some.inj hs)
  have hsound : Sound id (W.config.db.part id) := hstays.inv hdisciplined
  refine ⟨hsound, fun row hrow => ?_⟩
  have hpart : W.config.db.part id = ⟨some row, (W.config.db.part id).entries⟩ :=
    congrArg (RequestPart.mk · (W.config.db.part id).entries) hrow
  rw [hpart] at hsound ⊢
  exact hsound.units_eq

end

end

theorem nine_fits : 9 < 2 ^ 128 := by decide

def oneDay : LeaveRequestRow :=
  ⟨1, 2, .pendingApproval, ⟨2026, 3, 2, march_second_valid⟩, ⟨2026, 3, 2, march_second_valid⟩, .full, .full,
    1000, "UTC", none, none, none, 10, false⟩

/-- A request that waits for its decision. -/
def RequestDb.oneRequest : RequestDb where
  leave := Db.oneEmployee (annualLeave none none) (creditedRow 12000 none)
  userOf _ := some 30
  rules _ := ⟨true, true⟩
  holidays := []
  requests := Table.empty.insert 7 oneDay
  answers := .empty

def manager : RequestCtx where
  build := .release
  actor := 20
  idemKey := none
  membership := .ok ⟨[.manager], [.allow "hr.leave.write", .allow "hr.leave.approve"]⟩
  ownerScope _ := .ok ()
  newId := 9
  newId_lt := nine_fits
  turns := 4
  approval := none
  today := ⟨2026, 1, 1, january_first_valid⟩
  later := ⟨2026, 1, 1, january_first_valid⟩

section
variable [Formats]

def decidedAndCancelled : Fin 2 → LeaveOp :=
  sideBySide (.decide manager (requestPublicId 7) ⟨true, none⟩) (.cancel manager (requestPublicId 7))

end

/-- First one, then the other: the day is taken, and given back. -/
theorem leave_ledger_follows_decision :
    letI := Finance.crateFormats
    letI := Authz.canonicalTimeFormats
    ∃ W V : Watch (Fin 2) RequestDb RequestLock Ended Answer RequestPart,
      (W.config.db.part 7).units = -1000 ∧ Settled 7 (W.config.db.part 7) ∧
        (V.config.db.part 7).units = 0 ∧ Settled 7 (V.config.db.part 7) := by
  let := Finance.crateFormats
  let := Authz.canonicalTimeFormats
  have hdb : Settled 7 (RequestDb.oneRequest.part 7) := ⟨by unfold LeaveRequestRow.Measured; decide, rfl⟩
  obtain ⟨W, V, hW, hV, htaken, hback⟩ := Watch.Reached.of_play (g := requestGuard 7 (Settled 7))
    (P := fun _ seen base => seen.all fun part => part.status = base.status) (A := fun _ => StatusStays)
    (fun _ seen base h part hmem => of_decide_eq_true (List.all_eq_true.mp h part hmem))
    (fun i => (decidedAndCancelled i).body) .oneRequest (Move.through left 5) (Move.through right 6)
    (fun W => (W.config.db.requests.find? 7).any fun row => row.status = .approved ∧ row.unitsMilli = 1000)
    (fun V => (V.config.db.requests.find? 7).any (·.status = .cancelled)) (by decide +kernel)
  obtain ⟨row, hrow, happroved⟩ := (Option.any_eq_true _ _).mp htaken
  obtain ⟨hs, hmilli⟩ := of_decide_eq_true happroved
  obtain ⟨now, hnow, hcancelled⟩ := (Option.any_eq_true _ _).mp hback
  obtain ⟨hsettled, hunits⟩ := leave_ledger_follows_status Finance.uuidCrate_crateFormats (by decide) hdb hW
  obtain ⟨hsettled', hunits'⟩ :=
    leave_ledger_follows_status Finance.uuidCrate_crateFormats (by decide) hdb (hW.trans hV)
  refine ⟨W, V, ?_, hsettled, ?_, hsettled'⟩
  · rw [hunits row hrow, if_pos hs, hmilli]
  · rw [hunits' now hnow, if_neg (by rw [of_decide_eq_true hcancelled]; decide)]

/-- Side by side: the cancellation read the request before it was approved, and gives nothing back. -/
theorem leave_debited_once_side_by_side :
    letI := Finance.crateFormats
    letI := Authz.canonicalTimeFormats
    ∃ c : Config (Fin 2) RequestDb RequestLock Ended Answer,
      (c.db.requests.find? 7).any (·.status = .cancelled) = true ∧ (c.db.part 7).units = -1000 ∧
        Sound 7 (c.db.part 7) := by
  let := Finance.crateFormats
  let := Authz.canonicalTimeFormats
  have hdb : ∀ id < 2 ^ 128, Sound id (RequestDb.oneRequest.part id) := by
    intro id _
    by_cases hid : id = 7
    · subst hid
      exact ⟨by unfold LeaveRequestRow.Measured; decide, .none, by decide⟩
    · have hnone : RequestDb.oneRequest.requests.find? id = none := by
        refine (Table.find?_insert_ne _ _ hid).trans rfl
      have hpart : RequestDb.oneRequest.part id = ⟨none, []⟩ := congrArg (RequestPart.mk · []) hnone
      rw [hpart]
      rfl
  obtain ⟨c, hc, hend⟩ := Reachable.of_play (fun i => (decidedAndCancelled i).body) .oneRequest
    ([.exec right] ++ Move.through left 5 ++ [.exec right, .finish right])
    (fun c => (c.db.requests.find? 7).any (·.status = .cancelled) && (c.db.part 7).units = -1000) (by decide +kernel)
  obtain ⟨hcancelled, hunits⟩ := Bool.and_eq_true_iff.mp hend
  exact ⟨c, hcancelled, of_decide_eq_true hunits,
    (leave_debited_once Finance.uuidCrate_crateFormats hdb hc 7 (by decide)).1⟩

end Noxara.Leave
