import Noxara.PublicIdTexts
import Noxara.Timesheets
import Noxara.TransactionCover
import Noxara.TransactionRecheck

/-! What the requests for timesheets make of them side by side. A sheet keeps its member and its week and is never
a draft again; its entries stay within the week and go from draft to submitted to decided. What an entry says is
fixed once it is submitted, unless an edit goes by a status that has changed since it looked. -/
namespace Noxara.Finance.Date

theorem succ_pred (d : Date) : d.pred.succ = d := by
  refine ordinal_injective (Int.le_antisymm (succ_le_of_lt (pred_lt d)) (not_lt.mp fun hlt => ?_))
  exact not_le.mpr (lt_succ d.pred) (le_pred hlt)

theorem dayNumber_addDays (d : Date) (n : ℕ) : (d.addDays n).dayNumber = d.dayNumber + n := by
  induction n with
  | zero => simp [addDays]
  | succ n ih =>
    rw [addDays, dayNumber_succ, ih]
    omega

theorem dayNumber_subDays (d : Date) (n : ℕ) : (d.subDays n).dayNumber = d.dayNumber - n := by
  induction n with
  | zero => simp [subDays]
  | succ n ih =>
    have hsucc := dayNumber_succ (d.subDays n).pred
    rw [succ_pred, ih] at hsucc
    rw [subDays]
    omega

theorem dayNumber_shift (d : Date) (k : Int) : (d.shift k).dayNumber = d.dayNumber + k := by
  cases k with
  | ofNat n => exact dayNumber_addDays d n
  | negSucc n =>
    rw [shift, dayNumber_subDays]
    omega

end Noxara.Finance.Date

namespace Noxara.Timesheets

open Transaction
open Finance (Uuid Date AppError Formats PublicId)
open Authz (TimeFormats)
open Leave (Exit)

def InWeek (weekStart date : Date) : Prop := weekStart ≤ date ∧ date ≤ weekStart.shift 6

theorem mondayOf_monday {d monday : Date} (h : mondayOf d = some monday) : monday.numDaysFromMonday = 0 := by
  unfold mondayOf Leave.plusDays at h
  dsimp only at h
  split_ifs at h
  cases h
  rw [Date.numDaysFromMonday, Date.dayNumber_shift, Date.numDaysFromMonday]
  omega

theorem weekEnd_eq {weekStart stop : Date} (h : weekEnd weekStart = some stop) : stop = weekStart.shift 6 := by
  unfold weekEnd Leave.plusDays at h
  dsimp only at h
  split_ifs at h
  exact (Option.some.inj h).symm

/-- From draft to submitted to approved or rejected, and no further. -/
def Status.Leads (a b : Status) : Prop := a = b ∨ a = .draft ∨ a = .submitted ∧ b ≠ .draft

theorem Status.Leads.trans {a b c : Status} (h : a.Leads b) (h' : b.Leads c) : a.Leads c := by
  rcases h with rfl | rfl | ⟨rfl, hb⟩
  · exact h'
  · exact .inr (.inl rfl)
  · rcases h' with rfl | rfl | ⟨-, hc⟩
    · exact .inr (.inr ⟨rfl, hb⟩)
    · exact absurd rfl hb
    · exact .inr (.inr ⟨rfl, hc⟩)

theorem Status.Leads.not_draft {a b : Status} (h : a.Leads b) (ha : a ≠ .draft) : b ≠ .draft := by
  rcases h with rfl | rfl | ⟨-, hb⟩
  · exact ha
  · exact absurd rfl ha
  · exact hb

/-- The same sheet later. -/
structure TimesheetRow.Leads (row row' : TimesheetRow) : Prop where
  user : row'.membershipUserId = row.membershipUserId
  week : row'.weekStart = row.weekStart
  draft : row'.status = .draft → row.status = .draft

/-- The same entry later. -/
structure EntryRow.Leads (e e' : EntryRow) : Prop where
  user : e'.membershipUserId = e.membershipUserId
  sheet : e'.timesheetId = e.timesheetId
  status : e.status.Leads e'.status

namespace SheetDb

/-- The entry is one of a sheet: of its member, within its week, and a draft while the sheet is one. -/
def Fits (s : SheetDb) (e : EntryRow) : Prop :=
  0 < e.fields.minutes ∧ ∃ tid sheet, e.timesheetId = some tid ∧ s.sheets.find? tid = some sheet ∧
    e.membershipUserId = sheet.membershipUserId ∧ InWeek sheet.weekStart e.fields.entryDate ∧
    (sheet.status = .draft → e.status = .draft)

structure Sound (s : SheetDb) : Prop where
  monday : ∀ id row, s.sheets.find? id = some row → row.weekStart.numDaysFromMonday = 0
  week : ∀ id row id' row', s.sheets.find? id = some row → s.sheets.find? id' = some row' →
    row'.membershipUserId = row.membershipUserId → row'.weekStart = row.weekStart → id' = id
  entry : ∀ id e, s.entries.find? id = some e → s.Fits e

/-- Nothing is lost: sheets and entries are the same later. -/
structure Grows (s t : SheetDb) : Prop where
  sheet : s.sheets.Extends TimesheetRow.Leads t.sheets
  entry : s.entries.Extends EntryRow.Leads t.entries

/-- The watched entries that are no drafts say the same later. -/
def KeepsFields (watched : Uuid → Prop) (s t : SheetDb) : Prop :=
  ∀ id e, watched id → s.entries.find? id = some e → e.status ≠ .draft →
    ∃ e', t.entries.find? id = some e' ∧ e'.fields = e.fields

def HasWeek (s : SheetDb) (user : Uuid) (weekStart : Date) : Prop :=
  ∃ id row, s.sheets.find? id = some row ∧ row.membershipUserId = user ∧ row.weekStart = weekStart

/-- What a transaction that holds these locks makes of the store, as far as others go by it. -/
structure Evolves (ks : List Lock) (s t : SheetDb) : Prop where
  grows : s.Grows t
  sound : s.Sound → t.Sound
  weeks : ∀ user weekStart, .week user weekStart ∉ ks → t.HasWeek user weekStart → s.HasWeek user weekStart
  entries : ∀ id, .entry id ∉ ks → t.entries.find? id = s.entries.find? id

end SheetDb

theorem TimesheetRow.Leads.refl (row : TimesheetRow) : row.Leads row := ⟨rfl, rfl, id⟩

theorem TimesheetRow.Leads.trans {a b c : TimesheetRow} (h : a.Leads b) (h' : b.Leads c) : a.Leads c :=
  ⟨h'.user.trans h.user, h'.week.trans h.week, fun hc => h.draft (h'.draft hc)⟩

theorem EntryRow.Leads.refl (e : EntryRow) : e.Leads e := ⟨rfl, rfl, .inl rfl⟩

theorem EntryRow.Leads.trans {a b c : EntryRow} (h : a.Leads b) (h' : b.Leads c) : a.Leads c :=
  ⟨h'.user.trans h.user, h'.sheet.trans h.sheet, h.status.trans h'.status⟩

namespace SheetDb
variable {s t u : SheetDb} {ks ls : List Lock} {watched : Uuid → Prop}

theorem Grows.refl (s : SheetDb) : s.Grows s := ⟨.refl .refl _, .refl .refl _⟩

theorem Grows.trans (h : s.Grows t) (h' : t.Grows u) : s.Grows u :=
  ⟨h.sheet.trans .trans h'.sheet, h.entry.trans .trans h'.entry⟩

theorem Evolves.refl (s : SheetDb) : s.Evolves ks s := ⟨.refl s, id, fun _ _ _ => id, fun _ _ => rfl⟩

theorem Evolves.mono (h : s.Evolves ks t) (hks : ∀ k ∈ ks, k ∈ ls) : s.Evolves ls t :=
  ⟨h.grows, h.sound, fun user day hl => h.weeks user day fun hk => hl (hks _ hk),
    fun id hl => h.entries id fun hk => hl (hks _ hk)⟩

theorem Evolves.trans (h : s.Evolves ks t) (h' : t.Evolves ks u) : s.Evolves ks u :=
  ⟨h.grows.trans h'.grows, fun hs => h'.sound (h.sound hs),
    fun user day hk hu => h.weeks user day hk (h'.weeks user day hk hu),
    fun id hk => (h'.entries id hk).trans (h.entries id hk)⟩

theorem KeepsFields.refl (s : SheetDb) : s.KeepsFields watched s := fun _ e _ he _ => ⟨e, he, rfl⟩

theorem KeepsFields.trans (h : s.KeepsFields watched t) (hgrows : s.Grows t) (h' : t.KeepsFields watched u) :
    s.KeepsFields watched u := by
  intro id e hid he hs
  obtain ⟨e₁, he₁, hfields⟩ := h id e hid he hs
  obtain ⟨e₁', he₁', hleads⟩ := hgrows.entry.find? he
  obtain rfl : e₁' = e₁ := Option.some.inj (he₁'.symm.trans he₁)
  obtain ⟨e₂, he₂, hfields'⟩ := h' id e₁' hid he₁ (hleads.status.not_draft hs)
  exact ⟨e₂, he₂, hfields'.trans hfields⟩

theorem Fits.carried {e : EntryRow} (h : s.Fits e) (hsheets : s.sheets.Extends TimesheetRow.Leads t.sheets) :
    t.Fits e := by
  obtain ⟨hminutes, tid, sheet, htid, hsheet, huser, hweek, hdraft⟩ := h
  obtain ⟨sheet', hsheet', hleads⟩ := hsheets.find? hsheet
  refine ⟨hminutes, tid, sheet', htid, hsheet', huser.trans hleads.user.symm, ?_, fun h => hdraft (hleads.draft h)⟩
  rwa [hleads.week]

theorem Evolves.of_tables (hsheets : t.sheets = s.sheets) (hentries : t.entries = s.entries) : s.Evolves ks t := by
  obtain ⟨projects, tasks, sheets, entries, replies⟩ := s
  obtain ⟨_, _, _, _, _⟩ := t
  cases hsheets
  cases hentries
  exact ⟨⟨.refl .refl _, .refl .refl _⟩, fun h => ⟨h.monday, h.week, h.entry⟩, fun _ _ _ => id,
    fun _ _ => rfl⟩

theorem evolves_insertSheet {id : Uuid} {row : TimesheetRow} (hmonday : row.weekStart.numDaysFromMonday = 0)
    (hweek : ¬s.HasWeek row.membershipUserId row.weekStart) (hks : .week row.membershipUserId row.weekStart ∈ ks) :
    s.Evolves ks (s.setSheets (·.insert id row)) := by
  have hextends : s.sheets.Extends TimesheetRow.Leads (s.sheets.insert id row) := .insert .refl _ _ _
  refine ⟨⟨hextends, .refl .refl _⟩, fun h => ⟨?_, ?_, fun j e he => (h.entry j e he).carried hextends⟩, ?_,
    fun _ _ => rfl⟩
  · intro j r hr
    rcases Table.find?_insert_some hr with hold | ⟨-, rfl⟩
    · exact h.monday j r hold
    · exact hmonday
  · intro j r j' r' hr hr' huser hstart
    rcases Table.find?_insert_some hr with hold | ⟨rfl, rfl⟩ <;>
      rcases Table.find?_insert_some hr' with hold' | ⟨rfl, rfl⟩
    · exact h.week j r j' r' hold hold' huser hstart
    · exact absurd ⟨j, r, hold, huser.symm, hstart.symm⟩ hweek
    · exact absurd ⟨j', r', hold', huser, hstart⟩ hweek
    · rfl
  · rintro user day hk ⟨j, r, hr, rfl, rfl⟩
    rcases Table.find?_insert_some hr with hold | ⟨-, rfl⟩
    · exact ⟨j, r, hold, rfl, rfl⟩
    · exact absurd hks hk

theorem evolves_updateSheet {id : Uuid} {change : TimesheetRow → TimesheetRow}
    (huser : ∀ row, (change row).membershipUserId = row.membershipUserId)
    (hweek : ∀ row, (change row).weekStart = row.weekStart) (hstatus : ∀ row, (change row).status ≠ .draft) :
    s.Evolves ks (s.setSheets (·.modify id change)) := by
  have hleads : ∀ row : TimesheetRow, row.Leads (change row) := fun row =>
    ⟨huser row, hweek row, fun h => absurd h (hstatus row)⟩
  have hextends : s.sheets.Extends TimesheetRow.Leads (s.sheets.modify id change) := .modify .refl _ _ hleads
  have hback : ∀ j r, (s.sheets.modify id change).find? j = some r →
      ∃ r₀, s.sheets.find? j = some r₀ ∧ r₀.Leads r := by
    intro j r hr
    by_cases hj : j = id
    · subst hj
      rw [Table.find?_modify_self] at hr
      obtain ⟨r₀, hr₀, rfl⟩ := Option.map_eq_some_iff.mp hr
      exact ⟨r₀, hr₀, hleads r₀⟩
    · exact ⟨r, by rwa [Table.find?_modify_ne _ _ hj] at hr, .refl r⟩
  refine ⟨⟨hextends, .refl .refl _⟩, fun h => ⟨?_, ?_, fun j e he => (h.entry j e he).carried hextends⟩, ?_,
    fun _ _ => rfl⟩
  · intro j r hr
    obtain ⟨r₀, hr₀, hlead⟩ := hback j r hr
    rw [hlead.week]
    exact h.monday j r₀ hr₀
  · intro j r j' r' hr hr' hu hw
    obtain ⟨r₀, hr₀, hlead⟩ := hback j r hr
    obtain ⟨r₀', hr₀', hlead'⟩ := hback j' r' hr'
    rw [hlead.user, hlead'.user] at hu
    rw [hlead.week, hlead'.week] at hw
    exact h.week j r₀ j' r₀' hr₀ hr₀' hu hw
  · rintro user day - ⟨j, r, hr, rfl, rfl⟩
    obtain ⟨r₀, hr₀, hlead⟩ := hback j r hr
    exact ⟨j, r₀, hr₀, hlead.user.symm, hlead.week.symm⟩

theorem evolves_insertEntry {id : Uuid} {e : EntryRow} (hks : .entry id ∈ ks) (hfits : s.Fits e) :
    s.Evolves ks (s.setEntries (·.insert id e)) := by
  refine ⟨⟨.refl .refl _, .insert .refl _ _ _⟩, fun h => ⟨h.monday, h.week, fun j r hr => ?_⟩,
    fun _ _ _ h => h,
    fun j hj => Table.find?_insert_ne _ _ fun h => hj (h ▸ hks)⟩
  rcases Table.find?_insert_some hr with hold | ⟨-, rfl⟩
  · exact h.entry j r hold
  · exact hfits

theorem evolves_updateEntry {id : Uuid} {change : EntryRow → EntryRow} (hks : .entry id ∈ ks)
    (hleads : ∀ e : EntryRow, e.Leads (change e))
    (hfits : ∀ e, s.entries.find? id = some e → s.Fits e → s.Fits (change e)) :
    s.Evolves ks (s.setEntries (·.modify id change)) := by
  refine ⟨⟨.refl .refl _, .modify .refl _ _ hleads⟩, fun h => ⟨h.monday, h.week, fun j r hr => ?_⟩,
    fun _ _ _ h => h, fun j hj => Table.find?_modify_ne _ _ fun h => hj (h ▸ hks)⟩
  by_cases hj : j = id
  · subst hj
    rw [setEntries, Table.find?_modify_self] at hr
    obtain ⟨e, he, rfl⟩ := Option.map_eq_some_iff.mp hr
    exact hfits e he (h.entry j e he)
  · rw [setEntries, Table.find?_modify_ne _ _ hj] at hr
    exact h.entry j r hr

theorem KeepsFields.of_extends (h : s.entries.Extends (fun e e' => e'.fields = e.fields) t.entries) :
    s.KeepsFields watched t := fun _ _ _ he _ => h.find? he

/-- A write to other tables. -/
theorem KeepsFields.of_entries (h : t.entries = s.entries) : s.KeepsFields watched t :=
  fun _ e _ he _ => ⟨e, by rwa [h], rfl⟩

theorem keepsFields_edit {id : Uuid} {change : EntryRow → EntryRow}
    (hdraft : watched id → ∀ e, s.entries.find? id = some e → e.status = .draft) :
    s.KeepsFields watched (s.setEntries (·.modify id change)) := by
  intro j e hj he hs
  have hne : j ≠ id := by
    rintro rfl
    exact hs (hdraft hj e he)
  exact ⟨e, by rwa [setEntries, Table.find?_modify_ne _ _ hne], rfl⟩

theorem Fits.edited {e : EntryRow} {tid : Uuid} {sheet row : TimesheetRow} {fields : EntryFields} (h : s.Fits e)
    (hrow : s.sheets.find? tid = some row) (hlead : sheet.Leads row) (htid : e.timesheetId = some tid)
    (hminutes : 0 < fields.minutes) (hweek : InWeek sheet.weekStart fields.entryDate) :
    s.Fits { e with fields := fields } := by
  obtain ⟨-, tid', row', htid', hrow', huser, -, hdraft⟩ := h
  obtain rfl : tid' = tid := Option.some.inj (htid'.symm.trans htid)
  obtain rfl : row' = row := Option.some.inj (hrow'.symm.trans hrow)
  refine ⟨hminutes, tid', row', htid', hrow, huser, ?_, hdraft⟩
  rwa [hlead.week]

def statuses (eid : Uuid) (s : SheetDb) : Option (Status × Option Status) :=
  (s.entries.find? eid).map fun e => (e.status, e.timesheetId.bind fun tid => (s.sheets.find? tid).map (·.status))

end SheetDb

/-- What others make of the store while the transaction holds these locks, and for the entries to check: they are
locked only while the statuses are the ones that were seen. -/
def terms (checked : Uuid → Prop) : Terms SheetDb Lock where
  rely ls s t := ∃ ks, (∀ k ∈ ks, k ∉ ls) ∧ s.Evolves ks t
  when x ks s := ∀ eid, checked eid → .entry eid ∈ ks → .entry eid ∉ x.locks →
    ∀ v ∈ x.seen, v.statuses eid = s.statuses eid
  refl _ s := ⟨[], List.forall_mem_nil _, .refl s⟩
  trans := by
    rintro ls s t u ⟨ks, hks, h⟩ ⟨ks', hks', h'⟩
    refine ⟨ks ++ ks', fun k hk => ?_, (h.mono fun k => List.mem_append_left _).trans
      (h'.mono fun k => List.mem_append_right _)⟩
    rcases List.mem_append.mp hk with hk | hk
    · exact hks k hk
    · exact hks' k hk
  anti := by
    rintro ls ls' s t hls ⟨ks, hks, h⟩
    exact ⟨ks, fun k hk hmem => hks k hk (hls k hmem), h⟩

structure Promise (watched : Uuid → Prop) (x : Trail SheetDb Lock) (s : SheetDb) : Prop where
  evolves : s.Evolves x.locks (x.pend s)
  keeps : s.Sound → s.KeepsFields watched (x.pend s)

/-- A statement that keeps to the rules on stores which meet `P`, under the locks it takes. -/
def Within (watched : Uuid → Prop) (P : SheetDb → Prop) (ls : List Lock) (f : SheetDb → SheetDb) : Prop :=
  ∀ s, P s → s.Evolves ls (f s) ∧ s.KeepsFields watched (f s)

section
variable {checked watched : Uuid → Prop} {P : SheetDb → Prop} {x y : Trail SheetDb Lock} {s u : SheetDb}
  {ls : List Lock} {α : Type}

theorem rely_grows (h : (terms checked).rely ls s u) : s.Grows u := by
  obtain ⟨ks, -, hev⟩ := h
  exact hev.grows

theorem rely_sound (h : (terms checked).rely ls s u) (hs : s.Sound) : u.Sound := by
  obtain ⟨ks, -, hev⟩ := h
  exact hev.sound hs

theorem rely_entries (h : (terms checked).rely ls s u) {eid : Uuid} (hlock : .entry eid ∈ ls) :
    u.entries.find? eid = s.entries.find? eid := by
  obtain ⟨ks, hks, hev⟩ := h
  exact hev.entries eid fun hk => hks _ hk hlock

theorem rely_weeks (h : (terms checked).rely ls s u) {user : Uuid} {weekStart : Date}
    (hlock : .week user weekStart ∈ ls) (hno : ¬s.HasWeek user weekStart) : ¬u.HasWeek user weekStart := by
  obtain ⟨ks, hks, hev⟩ := h
  exact fun hhas => hno (hev.weeks _ _ (fun hk => hks _ hk hlock) hhas)

theorem within_id (ls : List Lock) : Within watched P ls id := fun s _ => ⟨.refl s, .refl s⟩

/-- What is kept to so far is kept to at the commit. -/
theorem safe_of_covered {p : SheetTx α} (hP : ∀ s t, P s → s.Grows t → P t) (hp : p.Covered (Within watched P))
    (h : ∀ u, (terms checked).rely x.locks s u → Promise watched x u ∧ P (x.pend u)) :
    p.Safe (terms checked) (fun y _ u => Promise watched y u) x s := by
  have hsteady : Prog.Steady (terms checked) (Within watched P) fun y v => ∀ u, (terms checked).rely y.locks v u →
      Promise watched y u ∧ P (y.pend u) := by
    refine ⟨fun hrely hy u hu => hy u ((terms checked).trans hrely hu), fun {y l w v} hw hy u hu => ?_⟩
    obtain ⟨⟨hev, hkeep⟩, hPu⟩ := hy u ((terms checked).anti (fun k => List.mem_append_right _) hu)
    obtain ⟨hev', hkeep'⟩ := hw (y.pend u) hPu
    refine ⟨⟨(hev.mono fun k => List.mem_append_right _).trans (hev'.mono fun k => List.mem_append_left _),
      fun hs => (hkeep hs).trans hev.grows hkeep'⟩, hP _ _ hPu hev'.grows⟩
  exact (hsteady.safe hp h).mono fun y _ u hy => (hy u ((terms checked).refl _ _)).1

/-- A body that has written nothing yet. -/
theorem safe_fresh {p : SheetTx α} (hx : x.pend = id) (hp : p.Covered (Within watched fun _ => True)) :
    p.Safe (terms checked) (fun y _ u => Promise watched y u) x s := by
  refine safe_of_covered (fun _ _ _ _ => trivial) hp fun u _ => ⟨⟨?_, fun _ => ?_⟩, trivial⟩
  · rw [hx]
    exact .refl u
  · rw [hx]
    exact .refl u

theorem lift_bind_safe {a : Except AppError α} {f : α → SheetTx Reply}
    {Q : Trail SheetDb Lock → Reply → SheetDb → Prop}
      (h : ∀ b, a = .ok b → (f b).Safe (terms checked) Q x s) :
    (lift a >>= f).Safe (terms checked) Q x s := by
  refine .ofExcept_bind fun b hb => ?_
  cases a with
  | error e => cases hb
  | ok b =>
    cases hb
    exact h b rfl

theorem noPanic_bind_safe {a : Option α} {f : α → SheetTx Reply}
    {Q : Trail SheetDb Lock → Reply → SheetDb → Prop}
      (h : ∀ b, a = some b → (f b).Safe (terms checked) Q x s) :
    (noPanic a >>= f).Safe (terms checked) Q x s := .okOr_bind h

theorem covered_fetchTimesheet (tid : Uuid) : (fetchTimesheet tid).Covered (Within watched P) :=
  .bind (Prog.covered_query within_id _) fun _ => Prog.covered_okOr _ _

theorem covered_fetchEntry (eid : Uuid) : (fetchEntry eid).Covered (Within watched P) :=
  .bind (Prog.covered_query within_id _) fun _ => Prog.covered_okOr _ _

theorem covered_putReply {ctx : SheetCtx} {reply : Reply} : (putReply ctx reply).Covered (Within watched P) := by
  unfold putReply
  split
  · trivial
  · exact Prog.covered_execute within_id fun _ _ s _ => ⟨.of_tables rfl rfl, .of_entries rfl⟩

/-- The sheet is there, and is a draft no more. -/
def Left (tid : Uuid) (s : SheetDb) : Prop := ∃ row, s.sheets.find? tid = some row ∧ row.status ≠ .draft

theorem Left.grows {tid : Uuid} (s t : SheetDb) (h : Left tid s) (hgrows : s.Grows t) : Left tid t := by
  obtain ⟨row, hrow, hs⟩ := h
  obtain ⟨row', hrow', hlead⟩ := hgrows.sheet.find? hrow
  exact ⟨row', hrow', fun h => hs (hlead.draft h)⟩

theorem covered_moveEntries {tid : Uuid} {old new : Status} (hlead : old.Leads new) :
    (moveEntries tid old new).Covered (Within watched (Left tid)) := by
  refine .bind (Prog.covered_query within_id _) fun _ => Prog.covered_each (fun eid => ?_) _
  refine Prog.covered_execute within_id fun _ _ s hleft =>
    ⟨SheetDb.evolves_updateEntry (List.mem_singleton.mpr rfl) (fun e => ?_) fun e _ hfits => ?_, .of_extends ?_⟩
  · split_ifs with hmoved
    · exact ⟨rfl, rfl, hmoved.2 ▸ hlead⟩
    · exact .refl e
  · split_ifs with hmoved
    · obtain ⟨hminutes, tid', row, htid', hrow, huser, hweek, -⟩ := hfits
      obtain rfl : tid' = tid := Option.some.inj (htid'.symm.trans hmoved.1)
      obtain ⟨row', hrow', hs⟩ := hleft
      obtain rfl : row' = row := Option.some.inj (hrow'.symm.trans hrow)
      exact ⟨hminutes, tid', row', htid', hrow, huser, hweek, fun h => absurd h hs⟩
    · exact hfits
  · refine Table.Extends.modify (R := fun e e' : EntryRow => e'.fields = e.fields) (fun _ => rfl) _ _ fun e => ?_
    split_ifs <;> rfl

/-- The sheet is moved first, its entries after it. -/
theorem safe_move {tid : Uuid} {sheet : TimesheetRow} {old new : Status} {change : TimesheetRow → TimesheetRow}
    (hx : x.pend = id) (hsheet : s.sheets.find? tid = some sheet)
    (huser : ∀ row, (change row).membershipUserId = row.membershipUserId)
    (hweek : ∀ row, (change row).weekStart = row.weekStart) (hstatus : ∀ row, (change row).status ≠ .draft)
    (hlead : old.Leads new) :
    (do updateTimesheet tid change
        moveEntries tid old new
        let answer ← fullTimesheet tid
        return ⟨200, answer⟩ : SheetTx Reply).Safe (terms checked) (fun y _ u => Promise watched y u) x s := by
  refine .execute_bind fun u hu _ _ => safe_of_covered (P := Left tid) Left.grows ?_ fun v hv => ?_
  · refine .bind (covered_moveEntries hlead) fun _ => .bind (.bind ?_ fun _ => ?_) fun _ => trivial
    · exact covered_fetchTimesheet tid
    · exact .bind (Prog.covered_query within_id _) fun _ => trivial
  · obtain ⟨row, hrow, -⟩ := ((rely_grows hu).trans (rely_grows hv)).sheet.find? hsheet
    have hpend : (x.push (fun _ => [Lock.sheet tid]) (fun _ t => t.setSheets (·.modify tid change)) u).pend v =
        v.setSheets (·.modify tid change) := by
      rw [Trail.push, hx]
      rfl
    rw [hpend]
    refine ⟨⟨?_, fun _ => ?_⟩, change row, ?_, hstatus row⟩
    · rw [hpend]
      exact SheetDb.evolves_updateSheet huser hweek hstatus
    · rw [hpend]
      exact .of_entries rfl
    · rw [SheetDb.setSheets, Table.find?_modify_self, hrow]
      rfl

/-- The handler has read the sheet, and has written nothing yet. -/
structure Looked (tid : Uuid) (sheet : TimesheetRow) (x : Trail SheetDb Lock) (s : SheetDb) : Prop where
  pend : x.pend = id
  sound : s.Sound
  view : ∃ v ∈ x.seen, v.Grows s ∧ v.sheets.find? tid = some sheet

def Found (eid : Uuid) (e : EntryRow) (x : Trail SheetDb Lock) (s : SheetDb) : Prop :=
  ∃ v ∈ x.seen, v.Grows s ∧ v.entries.find? eid = some e

section
variable {tid eid : Uuid} {sheet : TimesheetRow} {existing : EntryRow}

theorem Looked.later (h : Looked tid sheet x s) (hpend : y.pend = x.pend) (hseen : ∃ more, y.seen = more ++ x.seen)
    (hrely : (terms checked).rely ls s u) : Looked tid sheet y u := by
  obtain ⟨v, hv, hgrows, hsheet⟩ := h.view
  obtain ⟨more, hseen⟩ := hseen
  refine ⟨hpend.trans h.pend, rely_sound hrely h.sound, v, ?_, hgrows.trans (rely_grows hrely), hsheet⟩
  rw [hseen]
  exact List.mem_append_right _ hv

theorem Found.later (h : Found eid existing x s) (hseen : ∃ more, y.seen = more ++ x.seen)
    (hrely : (terms checked).rely ls s u) : Found eid existing y u := by
  obtain ⟨v, hv, hgrows, hentry⟩ := h
  obtain ⟨more, hseen⟩ := hseen
  refine ⟨v, ?_, hgrows.trans (rely_grows hrely), hentry⟩
  rw [hseen]
  exact List.mem_append_right _ hv

theorem Looked.row (h : Looked tid sheet x s) : ∃ row, s.sheets.find? tid = some row ∧ sheet.Leads row := by
  obtain ⟨v, -, hgrows, hsheet⟩ := h.view
  exact hgrows.sheet.find? hsheet

theorem Looked.fields (h : Looked tid sheet x s) (hentry : s.entries.find? eid = some existing)
    (htid : existing.timesheetId = some tid) :
    0 < existing.fields.minutes ∧ InWeek sheet.weekStart existing.fields.entryDate := by
  obtain ⟨hminutes, tid', row, htid', hrow, -, hweek, -⟩ := h.sound.entry eid existing hentry
  obtain rfl : tid' = tid := Option.some.inj (htid'.symm.trans htid)
  obtain ⟨row', hrow', hlead⟩ := h.row
  obtain rfl : row' = row := Option.some.inj (hrow'.symm.trans hrow)
  exact ⟨hminutes, hlead.week ▸ hweek⟩

/-- Where the statuses are those that the handler saw, its check makes sure of a draft. -/
theorem draft_of_seen (hlooked : Looked tid sheet x s) (hfound : Found eid existing x s)
    (htid : existing.timesheetId = some tid) (hdraft : existing.status = .draft ∨ sheet.status = .draft)
    (hseen : ∀ v ∈ x.seen, v.statuses eid = s.statuses eid) :
    ∀ e, s.entries.find? eid = some e → e.status = .draft := by
  intro e he
  obtain ⟨v, hv, hgrows, hsheet⟩ := hlooked.view
  obtain ⟨w, hw, hgrows', hentry⟩ := hfound
  obtain ⟨e', he', hlead⟩ := hgrows'.entry.find? hentry
  obtain rfl : e' = e := Option.some.inj (he'.symm.trans he)
  have hnow : existing.status = e'.status := by
    have heq := hseen w hw
    simp only [SheetDb.statuses, hentry, he, Option.map_some, Option.some.injEq, Prod.mk.injEq] at heq
    exact heq.1
  rcases hdraft with hs | hs
  · rw [← hnow, hs]
  · -- The sheet was a draft, with this entry in it, and is one still.
    have heq := hseen v hv
    obtain ⟨-, tid', row, htid', hrow, -, -, hfollows⟩ := hlooked.sound.entry eid e' he
    obtain rfl : tid' = tid := Option.some.inj (htid'.symm.trans (hlead.sheet.trans htid))
    simp only [SheetDb.statuses, he, htid', hrow, Option.map_some, Option.bind_some] at heq
    obtain ⟨e₀, he₀, hpair⟩ := Option.map_eq_some_iff.mp heq
    obtain ⟨e₁, he₁, hlead₀⟩ := hgrows.entry.find? he₀
    obtain rfl : e₁ = e' := Option.some.inj (he₁.symm.trans he)
    simp only [Prod.mk.injEq, ← hlead₀.sheet, htid', Option.bind_some, hsheet, Option.map_some,
      Option.some.injEq] at hpair
    exact hfollows (hpair.2.symm.trans hs)

/-- The statement that edits, after the checks. -/
theorem safe_edit {fields : EntryFields} (hlooked : Looked tid sheet x s) (hfound : Found eid existing x s)
    (hfree : .entry eid ∉ x.locks) (hchecked : watched eid → checked eid)
    (htid : existing.timesheetId = some tid) (hdraft : existing.status = .draft ∨ sheet.status = .draft)
    (hminutes : 0 < fields.minutes) (hweek : InWeek sheet.weekStart fields.entryDate) :
    (do updateEntry eid fields
        let updated ← fetchEntry eid
        return ⟨200, .entry eid updated⟩ : SheetTx Reply).Safe (terms checked)
      (fun y _ u => Promise watched y u) x s := by
  refine .execute_bind fun u hu hwhen _ => ?_
  have hlooked' : Looked tid sheet x u := hlooked.later rfl ⟨[], rfl⟩ hu
  refine safe_of_covered (P := fun _ => True) (fun _ _ _ _ => trivial)
    (.bind (covered_fetchEntry eid) fun _ => trivial) fun v hv => ⟨?_, trivial⟩
  have hpend : (x.push (fun _ => [Lock.entry eid])
      (fun _ t => t.setEntries (·.modify eid fun e => { e with fields := fields })) u).pend v =
      v.setEntries (·.modify eid fun e => { e with fields := fields }) := by
    rw [Trail.push, hlooked.pend]
    rfl
  refine ⟨?_, fun _ => ?_⟩
  · rw [hpend]
    refine SheetDb.evolves_updateEntry (List.mem_cons_self ..) (fun e => ⟨rfl, rfl, .inl rfl⟩) fun e he hfits => ?_
    obtain ⟨w, -, hgrows, hentry⟩ := hfound
    obtain ⟨e', he', hlead⟩ := ((hgrows.trans (rely_grows hu)).trans (rely_grows hv)).entry.find? hentry
    obtain rfl : e' = e := Option.some.inj (he'.symm.trans he)
    obtain ⟨row, hrow, hrowlead⟩ := (hlooked'.later rfl ⟨[], rfl⟩ hv).row
    exact hfits.edited hrow hrowlead (hlead.sheet.trans htid) hminutes hweek
  · rw [hpend]
    refine SheetDb.keepsFields_edit fun hw e he => ?_
    rw [rely_entries hv (List.mem_cons_self ..)] at he
    exact draft_of_seen hlooked' (hfound.later ⟨[], rfl⟩ hu) htid hdraft
      (hwhen eid (hchecked hw) (List.mem_singleton.mpr rfl) hfree) e he

end

theorem safe_fetchTimesheet_bind {tid : Uuid} {f : TimesheetRow → SheetTx Reply}
    {Q : Trail SheetDb Lock → Reply → SheetDb → Prop}
    (h : ∀ u row, (terms checked).rely x.locks s u → (x.pend u).sheets.find? tid = some row →
      (f row).Safe (terms checked) Q (x.look u) u) : (fetchTimesheet tid >>= f).Safe (terms checked) Q x s := by
  unfold fetchTimesheet
  rw [bind_assoc]
  exact .query_bind fun u hu _ => .okOr_bind fun row hrow => h u row hu hrow

theorem safe_fetchEntry_bind {eid : Uuid} {f : EntryRow → SheetTx Reply}
    {Q : Trail SheetDb Lock → Reply → SheetDb → Prop}
    (h : ∀ u row, (terms checked).rely x.locks s u → (x.pend u).entries.find? eid = some row →
      (f row).Safe (terms checked) Q (x.look u) u) : (fetchEntry eid >>= f).Safe (terms checked) Q x s := by
  unfold fetchEntry
  rw [bind_assoc]
  exact .query_bind fun u hu _ => .okOr_bind fun row hrow => h u row hu hrow

theorem safe_dateInWeek_bind {d weekStart : Date} {f : Unit → SheetTx Reply}
    {Q : Trail SheetDb Lock → Reply → SheetDb → Prop}
    (h : InWeek weekStart d → (f ()).Safe (terms checked) Q x s) :
    (dateInWeek d weekStart >>= f).Safe (terms checked) Q x s := by
  unfold dateInWeek
  rw [bind_assoc]
  generalize hend : weekEnd weekStart = found
  refine noPanic_bind_safe fun stop hstop => .require_bind fun hd => h ?_
  rwa [weekEnd_eq (hend.trans hstop)] at hd

theorem patchedMinutes_pos {existing : EntryRow} {raw : Option Int} {minutes : Int} (hold : 0 < existing.fields.minutes)
    (h : patchedMinutes existing raw = .ok minutes) : 0 < minutes := by
  unfold patchedMinutes at h
  split at h
  · split_ifs at h with hpos
    cases h
    exact hpos
  · cases h
    exact hold

theorem safe_openWeek {ctx : SheetCtx} {user : Uuid} {weekStart : Date} {notes : Option String} (hx : x.pend = id)
    (hmonday : weekStart.numDaysFromMonday = 0) :
    (openWeek ctx user weekStart notes).Safe (terms checked) (fun y _ u => Promise watched y u) x s := by
  refine .query_bind fun u hu _ => ?_
  split
  · refine safe_fresh hx (.bind (Prog.covered_query within_id _) fun _ => ?_)
    exact .bind covered_putReply fun _ => trivial
  · refine .execute_bind fun v hv _ hcheck => ?_
    refine safe_of_covered (P := fun _ => True) (fun _ _ _ _ => trivial) ?_ fun w hw => ?_
    · exact .bind (covered_fetchTimesheet _) fun _ => .bind covered_putReply fun _ => trivial
    · have hno : ¬v.HasWeek user weekStart := by
        rintro ⟨id, row, hrow, huser, hstart⟩
        have hview : (x.look u).pend v = v := congrFun hx v
        rw [hview] at hcheck
        split_ifs at hcheck with _ hsome
        refine hsome (List.find?_isSome.mpr ⟨(id, row), Table.find?_eq_some.mp hrow, ?_⟩)
        exact decide_eq_true ⟨huser, hstart⟩
      have hpend : ∀ row : TimesheetRow, ((x.look u).push (fun _ => [.sheet ctx.newId, .week user weekStart])
          (fun _ t => t.setSheets (·.insert ctx.newId row)) v).pend w = w.setSheets (·.insert ctx.newId row) := by
        intro row
        rw [Trail.push, Trail.look, hx]
        rfl
      refine ⟨⟨?_, fun _ => ?_⟩, trivial⟩
      · rw [hpend]
        refine SheetDb.evolves_insertSheet hmonday (rely_weeks hw ?_ hno) ?_
        · exact List.mem_cons_of_mem _ (List.mem_cons_self ..)
        · exact List.mem_cons_of_mem _ (List.mem_cons_self ..)
      · rw [hpend]
        exact .of_entries rfl

section
variable [Formats]

theorem looks_resolveProject (raw : String) : (resolveProject raw).Covered fun ls f => ls = [] ∧ f = id :=
  .bind (Prog.covered_ofExcept _) fun _ => .bind (fun _ => ⟨⟨rfl, rfl⟩, trivial⟩) fun _ => Prog.covered_okOr _ _

theorem looks_resolveTask (projectId : Uuid) (raw : Option String) :
    (resolveTask projectId raw).Covered fun ls f => ls = [] ∧ f = id := by
  unfold resolveTask
  split
  · trivial
  · refine .bind (Prog.covered_ofExcept _) fun _ => .bind (fun _ => ⟨⟨rfl, rfl⟩, trivial⟩) fun _ => ?_
    exact .bind (Prog.covered_okOr _ _) fun _ => trivial

theorem looks_patchedProject (existing : EntryRow) (raw : Option String) :
    (patchedProject existing raw).Covered fun ls f => ls = [] ∧ f = id := by
  unfold patchedProject
  split
  · exact looks_resolveProject _
  · trivial

theorem looks_patchedTask (existing : EntryRow) (projectId : Uuid) (raw : Option String) :
    (patchedTask existing projectId raw).Covered fun ls f => ls = [] ∧ f = id := by
  unfold patchedTask
  split_ifs
  · exact looks_resolveTask _ _
  · trivial

theorem safe_patchedDate_bind {existing : EntryRow} {weekStart : Date} {raw : Option String}
    {f : Date → SheetTx Reply}
    {Q : Trail SheetDb Lock → Reply → SheetDb → Prop} (hold : InWeek weekStart existing.fields.entryDate)
    (h : ∀ d, InWeek weekStart d → (f d).Safe (terms checked) Q x s) :
    (patchedDate existing weekStart raw >>= f).Safe (terms checked) Q x s := by
  unfold patchedDate
  split
  · rw [bind_assoc]
    refine lift_bind_safe fun d _ => ?_
    rw [bind_assoc]
    have hdate := @safe_dateInWeek_bind checked x s d weekStart
    generalize dateInWeek d weekStart = p at hdate ⊢
    exact hdate (h d)
  · rw [pure_bind]
    exact h _ hold

/-- A request that may change an entry. -/
def SheetOp.edits : SheetOp → Bool
  | create _ _ => false
  | upsert _ _ body => body.id.isSome
  | patch _ _ _ _ => true
  | submit _ _ => false
  | approve _ _ _ => false
  | reject _ _ _ => false

theorem safe_writeEntry {ctx : SheetCtx} {tid : Uuid} {sheet : TimesheetRow} {id : Option String}
    {fields : EntryFields} (hlooked : Looked tid sheet x s) (hlocks : x.locks = [])
    (hchecked : id.isSome → ∀ eid, watched eid → checked eid) (hminutes : 0 < fields.minutes)
    (hweek : InWeek sheet.weekStart fields.entryDate) :
    (writeEntry ctx tid sheet id fields).Safe (terms checked) (fun y _ u => Promise watched y u) x s := by
  unfold writeEntry
  split
  · refine lift_bind_safe fun eid _ => safe_fetchEntry_bind fun u existing hu hentry => ?_
    rw [hlooked.pend] at hentry
    refine .require_bind fun htid => .require_bind fun hdraft => ?_
    refine safe_edit (hlooked.later rfl ⟨[_], rfl⟩ hu) ⟨_, List.mem_cons_self .., ?_, ?_⟩ ?_ (hchecked rfl eid)
      htid hdraft hminutes hweek
    · rw [hlooked.pend]
      exact .refl u
    · rw [hlooked.pend]
      exact hentry
    · rw [Trail.look, hlocks]
      exact List.not_mem_nil
  · refine .execute_bind fun u hu _ _ => ?_
    refine safe_of_covered (P := fun _ => True) (fun _ _ _ _ => trivial) ?_ fun v hv => ?_
    · exact .bind (covered_fetchEntry _) fun _ => trivial
    · have hpend : ∀ e : EntryRow, (x.push (fun _ => [Lock.entry ctx.newId])
          (fun _ t => t.setEntries (·.insert ctx.newId e)) u).pend v = v.setEntries (·.insert ctx.newId e) := by
        intro e
        rw [Trail.push, hlooked.pend]
        rfl
      obtain ⟨row, hrow, hlead⟩ := ((hlooked.later rfl ⟨[], rfl⟩ hu).later rfl ⟨[], rfl⟩ hv).row
      refine ⟨⟨?_, fun _ => ?_⟩, trivial⟩
      · rw [hpend]
        refine SheetDb.evolves_insertEntry (List.mem_cons_self ..)
          ⟨hminutes, tid, row, rfl, hrow, hlead.user.symm, ?_, fun _ => rfl⟩
        rwa [hlead.week]
      · rw [hpend]
        exact .of_extends (Table.Extends.insert (R := fun e e' : EntryRow => e'.fields = e.fields) (fun _ => rfl) _ _ _)

variable [TimeFormats]

theorem SheetOp.safe (hs : s.Sound) (o : SheetOp) (hchecked : o.edits → ∀ eid, watched eid → checked eid) :
    o.body.Safe (terms checked) (fun y _ u => Promise watched y u) .start s := by
  cases o with
  | create ctx body =>
    refine lift_bind_safe fun membership _ => lift_bind_safe fun _ _ => lift_bind_safe fun date _ => ?_
    generalize hmonday : mondayOf date = found
    refine noPanic_bind_safe fun weekStart hstart => lift_bind_safe fun user _ => .query_bind fun u hu _ => ?_
    split
    · exact safe_fresh rfl trivial
    · exact safe_openWeek rfl (mondayOf_monday (hmonday.trans hstart))
  | upsert ctx id body =>
    refine lift_bind_safe fun membership _ => lift_bind_safe fun tid _ => .require_bind fun hminutes => ?_
    refine lift_bind_safe fun date _ => safe_fetchTimesheet_bind fun u sheet hu hsheet => ?_
    refine lift_bind_safe fun _ _ => ?_
    have hlooked : Looked tid sheet (Trail.start.look u) u :=
      ⟨rfl, rely_sound hu hs, u, List.mem_cons_self .., .refl u, hsheet⟩
    have hdate := @safe_dateInWeek_bind checked (Trail.start.look u) u date sheet.weekStart
    generalize dateInWeek date sheet.weekStart = p at hdate ⊢
    refine hdate fun hweek => .looks_bind (looks_resolveProject _) fun y projectId v hpend hlocks hseen hv => ?_
    refine .looks_bind (looks_resolveTask _ _) fun z taskId w hpend' hlocks' hseen' hw => ?_
    refine safe_writeEntry ((hlooked.later hpend hseen hv).later hpend' hseen' hw) ?_ hchecked hminutes hweek
    exact hlocks'.trans hlocks
  | patch ctx id entryId body =>
    refine lift_bind_safe fun membership _ => lift_bind_safe fun tid _ => lift_bind_safe fun eid _ => ?_
    refine safe_fetchTimesheet_bind fun u sheet hu hsheet => lift_bind_safe fun _ _ => ?_
    refine safe_fetchEntry_bind fun v existing hv hentry => .require_bind fun htid => .require_bind fun hdraft => ?_
    have hlooked : Looked tid sheet ((Trail.start.look u).look v) v :=
      ⟨rfl, rely_sound hv (rely_sound hu hs), u, by simp [Trail.look, Trail.start], rely_grows hv, hsheet⟩
    have hfound : Found eid existing ((Trail.start.look u).look v) v := ⟨v, List.mem_cons_self .., .refl v, hentry⟩
    obtain ⟨hminutes, hweek⟩ := hlooked.fields hentry htid
    refine .require_bind fun _ => .looks_bind (looks_patchedProject _ _) fun y projectId w hpend hlocks hseen hw => ?_
    refine .looks_bind (looks_patchedTask _ _ _) fun z taskId t hpend' hlocks' hseen' ht => ?_
    refine safe_patchedDate_bind hweek fun date hdate => lift_bind_safe fun minutes hmin => ?_
    refine safe_edit ((hlooked.later hpend hseen hw).later hpend' hseen' ht)
      ((hfound.later hseen hw).later hseen' ht) ?_ (hchecked rfl eid) htid hdraft
      (patchedMinutes_pos hminutes hmin) hdate
    rw [hlocks', hlocks]
    exact List.not_mem_nil
  | submit ctx id =>
    refine lift_bind_safe fun membership _ => lift_bind_safe fun _ _ => lift_bind_safe fun tid _ => ?_
    refine safe_fetchTimesheet_bind fun u sheet hu hsheet => .require_bind fun _ => .require_bind fun _ => ?_
    exact safe_move rfl hsheet (fun _ => rfl) (fun _ => rfl) (fun _ => nofun) (.inr (.inl rfl))
  | approve ctx id note | reject ctx id note =>
    refine lift_bind_safe fun membership _ => lift_bind_safe fun _ _ => lift_bind_safe fun tid _ => ?_
    refine safe_fetchTimesheet_bind fun u sheet hu hsheet => .require_bind fun _ => .require_bind fun _ => ?_
    exact safe_move rfl hsheet (fun _ => rfl) (fun _ => rfl) (fun _ => nofun) (.inr (.inr ⟨rfl, nofun⟩))

end

end

def entryWatch (eid : Uuid) : Guard SheetDb Lock (Option (Status × Option Status)) :=
  ⟨.entry eid, SheetDb.statuses eid, fun _ => True⟩

section
variable [Formats] [TimeFormats] {ι : Type} {ops : ι → SheetOp} {db : SheetDb}

/-- An edit that locks the entry finds the statuses that it saw. -/
def UpToDate (ops : ι → SheetOp) (i : ι) (seen : List (Option (Status × Option Status)))
    (now : Option (Status × Option Status)) : Prop := (ops i).edits → ∀ r ∈ seen, r = now

variable [DecidableEq ι]

/-- In every interleaving there is one sheet at most for a member and a week, which starts on a Monday, and each
entry belongs to a sheet, with its member, a date of its week and a positive time, and is a draft while the sheet is
one. No sheet or entry is lost or given away, no sheet becomes a draft again, and entries go from draft to submitted
to approved or rejected and no further. -/
theorem timesheets_sound (hdb : db.Sound) {c d : Config ι SheetDb Lock Exit Reply}
    (hc : Reachable (fun i => (ops i).body) db c) (hd : Relation.ReflTransGen Step c d) :
    c.db.Sound ∧ d.db.Sound ∧ c.db.Grows d.db := by
  obtain ⟨W, hW, rfl⟩ := Watch.exists_reached (g := entryWatch 0) hc
  obtain ⟨V, hV, rfl⟩ := Watch.exists_run (g := entryWatch 0) W hd
  have hsafe : ∀ i, (ops i).body.Safe (terms fun _ => False) (fun y _ u => Promise (fun _ => False) y u) .start db :=
    fun i => (ops i).safe hdb fun _ _ h => h
  have hrely : ∀ (i j : ι) (x : Trail SheetDb Lock) (_ : Reply) (ls : List Lock) (s : SheetDb), i ≠ j →
    s.Sound →
      Promise (fun _ => False) x s → (∀ k ∈ x.locks, k ∉ ls) → (terms fun _ => False).rely ls s (x.pend s) :=
    fun _ _ x _ _ _ _ _ hQ hfree => ⟨x.locks, hfree, hQ.evolves⟩
  have hkept : ∀ {U : Watch ι SheetDb Lock Exit Reply _},
      Watch.Reached (entryWatch 0) (fun _ _ _ => True) (fun i => (ops i).body) db U → U.config.db.Sound := fun hU =>
    (Watch.Reached.safe hsafe (fun _ _ _ _ _ => nofun) hdb (fun _ _ _ _ hs hQ => hQ.evolves.sound hs) hrely hU).2
  refine ⟨hkept hW, hkept (hW.trans hV), ?_⟩
  exact Watch.Reached.leads hsafe (fun _ _ _ _ _ => nofun) hdb (fun _ _ _ _ hs hQ => hQ.evolves.sound hs) hrely hW hV
    .refl (fun _ _ _ => .trans) fun _ _ _ _ _ hQ => hQ.evolves.grows

/-- Where no edit of an entry goes by a status, of the entry or its sheet, that has changed since it looked, the
entry says the same from its submission on: what was approved is what was submitted. -/
theorem submitted_entry_kept (hdb : db.Sound) {eid : Uuid}
    {W V : Watch ι SheetDb Lock Exit Reply (Option (Status × Option Status))}
    (hW : Watch.Reached (entryWatch eid) (UpToDate ops) (fun i => (ops i).body) db W)
    (hV : Relation.ReflTransGen (Watch.Step (entryWatch eid) (UpToDate ops)) W V) {e : EntryRow}
    (he : W.config.db.entries.find? eid = some e) (hs : e.status ≠ .draft) :
    ∃ e', V.config.db.entries.find? eid = some e' ∧ e'.fields = e.fields ∧ e.status.Leads e'.status := by
  have hsafe : ∀ i, (ops i).body.Safe (terms fun id => (ops i).edits = true ∧ id = eid)
      (fun y _ u => Promise (· = eid) y u) .start db := fun i => (ops i).safe hdb fun hedits _ hid => ⟨hedits, hid⟩
  have hboth : W.config.db.Grows V.config.db ∧ W.config.db.KeepsFields (· = eid) V.config.db := by
    refine Watch.Reached.leads hsafe ?_ hdb (fun _ _ _ _ hsound hQ => hQ.evolves.sound hsound)
      (fun _ _ x _ _ _ _ _ hQ hfree => ⟨x.locks, hfree, hQ.evolves⟩) hW hV
      (R := fun s t => s.Grows t ∧ s.KeepsFields (· = eid) t)
      (fun s => ⟨.refl s, .refl s⟩) (fun _ _ _ h h' => ⟨h.1.trans h'.1, h.2.trans h.1 h'.2⟩)
      fun _ _ _ _ hsound hQ => ⟨hQ.evolves.grows, hQ.keeps hsound⟩
    rintro i x ks s hA id ⟨hedits, rfl⟩ hk hfree v hv
    exact hA hk hfree hedits _ (List.mem_map_of_mem hv)
  obtain ⟨e', he', hfields⟩ := hboth.2 eid e rfl he hs
  obtain ⟨e'', he'', hlead⟩ := hboth.1.entry.find? he
  obtain rfl : e'' = e' := Option.some.inj (he''.symm.trans he')
  exact ⟨e'', he', hfields, hlead.status⟩

end

theorem monday_valid : 1 ≤ 3 ∧ 3 ≤ 12 ∧ 1 ≤ 2 ∧ 2 ≤ Finance.daysInMonth 2026 3 := by decide

theorem wednesday_valid : 1 ≤ 3 ∧ 3 ≤ 12 ∧ 1 ≤ 4 ∧ 4 ≤ Finance.daysInMonth 2026 3 := by decide

def oneWeek : TimesheetRow := ⟨30, ⟨2026, 3, 2, monday_valid⟩, .draft, none, none⟩

def oneEntry : EntryRow := ⟨30, ⟨8, none, ⟨2026, 3, 4, wednesday_valid⟩, 60, true, none⟩, some 5, .draft⟩

def SheetDb.oneSheet : SheetDb where
  projects := [8]
  tasks := []
  sheets := Table.empty.insert 5 oneWeek
  entries := Table.empty.insert 6 oneEntry
  replies := .empty

theorem SheetDb.sound_oneSheet : SheetDb.oneSheet.Sound := by
  have hsheet : ∀ id row, SheetDb.oneSheet.sheets.find? id = some row → id = 5 ∧ row = oneWeek := by
    intro id row hrow
    rcases Table.find?_insert_some hrow with hold | hnew
    · cases hold
    · exact hnew
  refine ⟨fun id row hrow => ?_, fun id row id' row' hrow hrow' _ _ => ?_, fun id e he => ?_⟩
  · obtain ⟨-, rfl⟩ := hsheet id row hrow
    decide +kernel
  · rw [(hsheet id row hrow).1, (hsheet id' row' hrow').1]
  · rcases Table.find?_insert_some he with hold | ⟨-, rfl⟩
    · cases hold
    · refine ⟨by decide, 5, oneWeek, rfl, rfl, rfl, ?_, fun _ => rfl⟩
      unfold InWeek
      decide +kernel

def member : SheetCtx where
  actor := 30
  idemKey := none
  membership := .ok ⟨[.member], [.allow "operations.timesheet.write", .allow "operations.timesheet.submit"]⟩
  newId := 9

section
variable [Formats]

def submittedAndPatched : Fin 2 → SheetOp :=
  sideBySide (.submit member (PublicId.mk .timesheet 5).asStr)
    (.patch member (PublicId.mk .timesheet 5).asStr (PublicId.mk .timeEntry 6).asStr
      ⟨none, none, none, some 90, none, none⟩)

end

/-- Side by side: the correction looked before the sheet was submitted, and is made after it. -/
theorem timesheets_sound_side_by_side :
    letI := Finance.crateFormats
    letI := Authz.canonicalTimeFormats
    ∃ c d : Config (Fin 2) SheetDb Lock Exit Reply,
      (c.db.entries.find? 6).any (fun e => e.status = .submitted && e.fields.minutes = 60) = true ∧
      (d.db.entries.find? 6).any (fun e => e.status = .submitted && e.fields.minutes = 90) = true ∧
        c.db.Sound ∧ d.db.Sound ∧ c.db.Grows d.db := by
  let := Finance.crateFormats
  let := Authz.canonicalTimeFormats
  obtain ⟨c, d, hc, hd, hsubmitted, hpatched⟩ := Reachable.of_play_twice
    (fun i => (submittedAndPatched i).body) .oneSheet
    (.exec right :: .exec right :: Move.through left 6) [.exec right, .exec right, .finish right]
    (fun c => (c.db.entries.find? 6).any fun e => e.status = .submitted && e.fields.minutes = 60)
    (fun d => (d.db.entries.find? 6).any fun e => e.status = .submitted && e.fields.minutes = 90) (by decide +kernel)
  exact ⟨c, d, hsubmitted, hpatched, timesheets_sound SheetDb.sound_oneSheet hc hd⟩

/-- First one, then the other: the correction is refused. -/
theorem submitted_entry_kept_in_turn :
    letI := Finance.crateFormats
    letI := Authz.canonicalTimeFormats
    ∃ V : Watch (Fin 2) SheetDb Lock Exit Reply (Option (Status × Option Status)),
      V.config.log.length = 2 ∧ (V.config.db.entries.find? 6).any (fun e => e.fields = oneEntry.fields) = true := by
  let := Finance.crateFormats
  let := Authz.canonicalTimeFormats
  obtain ⟨W, V, hW, hV, hsubmitted, hlog⟩ := Watch.Reached.of_play (g := entryWatch 6)
    (P := fun i seen now => !(submittedAndPatched i).edits || seen.all fun r => r = now)
    (A := UpToDate submittedAndPatched)
    (fun i seen now h hedits => by simpa [hedits] using h)
    (fun i => (submittedAndPatched i).body) .oneSheet (Move.through left 6) (Move.through right 1)
    (fun W => (W.config.db.entries.find? 6).any fun e => e.status = .submitted && e.fields = oneEntry.fields)
    (fun V => V.config.log.length = 2) (by decide +kernel)
  obtain ⟨e, he, hboth⟩ := (Option.any_eq_true _ _).mp hsubmitted
  obtain ⟨hs, hfields⟩ := Bool.and_eq_true_iff.mp hboth
  obtain ⟨e', he', hkept, -⟩ := submitted_entry_kept SheetDb.sound_oneSheet hW hV he
    (by rw [of_decide_eq_true hs]; decide)
  refine ⟨V, of_decide_eq_true hlog, (Option.any_eq_true _ _).mpr ⟨e', he', decide_eq_true ?_⟩⟩
  exact hkept.trans (of_decide_eq_true hfields)

end Noxara.Timesheets
