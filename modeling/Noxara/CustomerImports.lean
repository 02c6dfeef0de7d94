import Noxara.SalesLeads
import Mathlib.Data.List.DropRight

/-! The import of customers: what it counts as imported, and what it inserts. -/
namespace Noxara.Sales
open Transaction
open Finance (Uuid Formats canonicalFormats PublicId validation trim isWhiteSpace)

structure ImportRowInput where
  name : Option String
  email : Option String
  phone : Option String
  company : Option String

/-- The rows are those of the body, or those of its CSV. -/
structure ImportConfirmRequest where
  rows : List ImportRowInput
  skipExactDuplicates : Bool

structure ImportConfirmResponse where
  jobId : String
  imported : ℕ
  skipped : ℕ

def rowDisplayName (row : ImportRowInput) : Option String :=
  (row.company.filter fun s => trim s ≠ "").or (row.name.filter fun s => trim s ≠ "")

section
variable [TextSearch]
open TextSearch

/-- The unique index on the lower case of e-mails has the e-mail. -/
def emailTaken (v : SalesDb) (email : Option String) : Bool :=
  email.any fun e => v.customers.values.any fun c => c.email.any fun a => lower a = lower e

/-- `INSERT .. ON CONFLICT DO NOTHING`. The public id is made from the id, so that it conflicts where that does. -/
def insertImported (id : Uuid) (row : CustomerRow) : SalesTx Unit :=
  let conflict (v : SalesDb) : Bool := (v.customers.find? id).isSome || emailTaken v row.email
  .execute
    (fun v =>
      if conflict v then [] else .customer id :: ((row.email.map lower).map SalesLock.customerEmail).toList)
    (fun v =>
      if conflict v then .ok ()
      else ensure (∀ u, row.ownerUserId = some u → u ∈ v.users)
        (foreignKey "sales_customer" "sales_customer_owner_user_id_fkey"))
    fun v s => if conflict v then s else s.setCustomers (·.insert id row)

def isExactDuplicate (skipExactDuplicates : Bool) (name : String) (email : Option String) : SalesTx Bool :=
  if skipExactDuplicates then do
    let dupes ← findCustomerDuplicates name email
    return dupes.any fun d => d.reason = "exact_email"
  else return false

/-- The numbers of rows imported and skipped so far. -/
abbrev Counts := ℕ × ℕ

variable [Formats]

def importedCustomer (ctx : RequestCtx) (n : ℕ) (name : String) (row : ImportRowInput) : CustomerRow :=
  ⟨(PublicId.mk .customer (ctx.fresh n)).asStr, name, row.email, row.phone, some ctx.actorUserId⟩

def importRow (ctx : RequestCtx) (skipExactDuplicates : Bool) (n : ℕ) (row : ImportRowInput) (counts : Counts) :
    SalesTx Counts :=
  match rowDisplayName row with
  | none => return (counts.1, counts.2 + 1)
  | some name => do
    let duplicate ← isExactDuplicate skipExactDuplicates name row.email
    if duplicate then return (counts.1, counts.2 + 1)
    else do
      insertImported (ctx.fresh n) (importedCustomer ctx n name row)
      return (counts.1 + 1, counts.2)

def importRows (ctx : RequestCtx) (skipExactDuplicates : Bool) :
    ℕ → List ImportRowInput → Counts → SalesTx Counts
  | _, [], counts => return counts
  | n, row :: rows, counts => do
    let counts ← importRow ctx skipExactDuplicates n row counts
    importRows ctx skipExactDuplicates (n + 1) rows counts

/-- The first id is that of the job, whose row nothing else reads. -/
def confirmCustomers (ctx : RequestCtx) (body : ImportConfirmRequest) : SalesTx ImportConfirmResponse := do
  .ofExcept ctx.anyScope
  .require (body.rows ≠ []) (validation "no rows to import")
  let counts ← importRows ctx body.skipExactDuplicates 1 body.rows (0, 0)
  return ⟨(PublicId.mk .dataImport (ctx.fresh 0)).asStr, counts.1, counts.2⟩

end

theorem trim_toList (s : String) : (trim s).toList = (s.toList.dropWhile isWhiteSpace).rdropWhile isWhiteSpace := by
  unfold trim List.rdropWhile
  rw [String.toList_ofList]

theorem trim_trim (s : String) : trim (trim s) = trim s := by
  apply String.toList_inj.mp
  rw [trim_toList, trim_toList]
  have hstart : ((s.toList.dropWhile isWhiteSpace).rdropWhile isWhiteSpace).dropWhile isWhiteSpace =
      (s.toList.dropWhile isWhiteSpace).rdropWhile isWhiteSpace := by
    rw [List.dropWhile_eq_self_iff]
    intro hl
    have hstarts := List.rdropWhile_prefix isWhiteSpace (l := s.toList.dropWhile isWhiteSpace)
    have hself := List.dropWhile_eq_self_iff.mp (List.dropWhile_idempotent (p := isWhiteSpace) s.toList)
    rw [hstarts.getElem]
    exact hself (hl.trans_le hstarts.length_le)
  rw [hstart, List.rdropWhile_idempotent]

theorem isWhiteSpace_of_letter {c : Char} (h : 65 ≤ c.toNat) (h' : c.toNat ≤ 122) : isWhiteSpace c = false := by
  have hother : ∀ k ∈ [0x20, 0x85, 0xA0, 0x1680, 0x2028, 0x2029, 0x202F, 0x205F, 0x3000], c.toNat ≠ k := by
    intro k hk
    simp only [List.mem_cons, List.not_mem_nil, or_false] at hk
    omega
  have hlist : [0x20, 0x85, 0xA0, 0x1680, 0x2028, 0x2029, 0x202F, 0x205F, 0x3000].contains c.toNat = false :=
    Bool.eq_false_iff.mpr fun hmem => hother _ (List.contains_iff_mem.mp hmem) rfl
  unfold isWhiteSpace
  rw [hlist, Bool.or_false, Bool.or_eq_false_iff]
  constructor
  · exact Bool.and_eq_false_imp.mpr fun _ => decide_eq_false (by omega)
  · exact Bool.and_eq_false_imp.mpr fun hle => absurd (of_decide_eq_true hle) (by omega)

theorem isWhiteSpace_toLower (c : Char) : isWhiteSpace c.toLower = isWhiteSpace c := by
  unfold Char.toLower
  split_ifs with h
  · have hlow : 65 ≤ c.toNat := h.1
    have hhigh : c.toNat ≤ 90 := h.2
    have hsum : (c.val + ('a'.val - 'A'.val)).toNat = c.toNat + 32 := by
      rw [UInt32.toNat_add]
      change (c.toNat + 32) % 4294967296 = c.toNat + 32
      omega
    rw [isWhiteSpace_of_letter hlow (by omega), isWhiteSpace_of_letter]
    · change 65 ≤ (c.val + ('a'.val - 'A'.val)).toNat
      omega
    · change (c.val + ('a'.val - 'A'.val)).toNat ≤ 122
      omega
  · rfl

/-- Lower case keeps the spaces around a text and makes no text empty. -/
class LawfulLower [TextSearch] : Prop where
  lower_trim : ∀ s, TextSearch.lower (trim s) = trim (TextSearch.lower s)
  lower_eq_empty : ∀ s, TextSearch.lower s = "" ↔ s = ""

section
variable [TextSearch]
open TextSearch

/-- The same e-mail up to case and outer spaces, and not blank. -/
def SameEmail (a b : String) : Prop := trim a ≠ "" ∧ trim b ≠ "" ∧ lower (trim a) = lower (trim b)

/-- The e-mails of the live customers. -/
def SalesDb.emails (s : SalesDb) : List String := s.customers.values.filterMap (·.email)

theorem emailTaken_iff {v : SalesDb} {email : Option String} :
    emailTaken v email = true ↔ ∃ e ∈ email, ∃ a ∈ v.emails, lower a = lower e := by
  unfold emailTaken SalesDb.emails
  cases email with
  | none => simp
  | some e =>
    simp only [Option.any_some, List.any_eq_true, Option.mem_some_iff, exists_eq_left', List.mem_filterMap]
    constructor
    · rintro ⟨c, hc, hany⟩
      cases ha : c.email with
      | none =>
        rw [ha] at hany
        cases hany
      | some a =>
        rw [ha] at hany
        exact ⟨a, ⟨c, hc, ha⟩, of_decide_eq_true hany⟩
    · rintro ⟨a, ⟨c, hc, ha⟩, hlower⟩
      refine ⟨c, hc, ?_⟩
      rw [ha]
      exact decide_eq_true hlower

/-- A live customer has the trimmed e-mail as it is, up to case. -/
def Carried (seen : List String) (e : String) : Prop := ∃ x ∈ seen, lower x = lower (trim e)

/-- The rows of customers as a search for duplicates has them. -/
def customerCandidates (v : SalesDb) : List Candidate :=
    v.customers.values.map fun c => ⟨c.publicId, c.name, c.email⟩

theorem run_exactMatches {email : Option String} {s : SalesDb} {r : List Candidate × SalesDb}
    (h : (exactMatches customerCandidates email).run s = .ok r) :
    r.2 = s ∧ (r.1 ≠ [] ↔ ∃ e ∈ email, trim e ≠ "" ∧ Carried s.emails e) := by
  unfold exactMatches at h
  cases hkey : (email.map trim).filter (· ≠ "") with
  | none =>
    rw [hkey] at h
    cases h
    refine ⟨rfl, iff_of_false (fun h => h rfl) ?_⟩
    rintro ⟨e, rfl, hblank, -⟩
    simp [hblank] at hkey
  | some key =>
    rw [hkey] at h
    cases h
    obtain ⟨hkey, hblank⟩ := Option.filter_eq_some_iff.mp hkey
    obtain ⟨e, rfl, rfl⟩ := Option.map_eq_some_iff.mp hkey
    have hblank : trim e ≠ "" := of_decide_eq_true hblank
    refine ⟨rfl, ?_⟩
    rw [ne_eq, List.filter_eq_nil_iff]
    push Not
    constructor
    · rintro ⟨c, hc, hemail⟩
      obtain ⟨customer, hcustomer, rfl⟩ := List.mem_map.mp hc
      cases ha : customer.email with
      | none => simp [ha] at hemail
      | some a =>
        refine ⟨e, rfl, hblank, a, List.mem_filterMap.mpr ⟨customer, hcustomer, ha⟩, ?_⟩
        simpa [ha] using hemail
    · rintro ⟨e', he', -, a, hmem, hlower⟩
      cases he'
      obtain ⟨customer, hcustomer, ha⟩ := List.mem_filterMap.mp hmem
      refine ⟨_, List.mem_map_of_mem hcustomer, ?_⟩
      simpa [ha] using hlower

theorem run_nearMatches {rows : SalesDb → List Candidate} {name : String} {s : SalesDb}
    {r : List (Candidate × Rat) × SalesDb} (h : (nearMatches rows name).run s = .ok r) : r.2 = s := by
  unfold nearMatches at h
  split_ifs at h <;> cases h <;> rfl

omit [TextSearch] in
/-- Near names add no match of an e-mail. -/
theorem any_exact_foldl (asMatch : Candidate → Rat → String → DuplicateMatch)
    (hreason : ∀ c score reason, (asMatch c score reason).reason = reason) (near : List (Candidate × Rat))
    (out : List DuplicateMatch) :
    (near.foldl (fun out x =>
        let m := asMatch x.1 x.2 "near_name"
        if out.any fun o => o.customerId = m.customerId && o.leadId = m.leadId then out else out ++ [m])
      out).any (fun d => d.reason = "exact_email") = out.any fun d => d.reason = "exact_email" := by
  induction near generalizing out with
  | nil => rfl
  | cons x near ih =>
    rw [List.foldl_cons, ih]
    dsimp only
    split_ifs
    · rfl
    · simp [hreason]

theorem run_findCustomerDuplicates {name : String} {email : Option String} {s : SalesDb}
    {r : List DuplicateMatch × SalesDb} (h : (findCustomerDuplicates name email).run s = .ok r) :
    r.2 = s ∧ (r.1.any (fun d => d.reason = "exact_email") = true ↔
      ∃ e ∈ email, trim e ≠ "" ∧ Carried s.emails e) := by
  obtain ⟨exact, t₁, hexact, h⟩ := Prog.run_bind_ok.mp h
  obtain ⟨near, t₂, hnear, h⟩ := Prog.run_bind_ok.mp h
  obtain ⟨ht₁, hfound⟩ := run_exactMatches hexact
  have ht₂ := run_nearMatches hnear
  cases h
  refine ⟨ht₂.trans ht₁, ?_⟩
  have hany := any_exact_foldl (fun c score reason => ⟨some c.publicId, none, c.name, c.email, score, reason⟩)
    (fun _ _ _ => rfl) near (exact.map fun c => ⟨some c.publicId, none, c.name, c.email, 1, "exact_email"⟩)
  refine (Bool.eq_iff_iff.mp hany).trans (Iff.trans ?_ hfound)
  cases exact <;> simp

theorem run_isExactDuplicate {skip : Bool} {name : String} {email : Option String} {s : SalesDb}
    {r : Bool × SalesDb} (h : (isExactDuplicate skip name email).run s = .ok r) :
    r.2 = s ∧ (r.1 = true ↔ skip = true ∧ ∃ e ∈ email, trim e ≠ "" ∧ Carried s.emails e) := by
  unfold isExactDuplicate at h
  cases skip with
  | false =>
    cases h
    exact ⟨rfl, by simp⟩
  | true =>
    obtain ⟨dupes, t, hdupes, h⟩ := Prog.run_bind_ok.mp h
    obtain ⟨ht, hany⟩ := run_findCustomerDuplicates hdupes
    cases h
    exact ⟨ht, by rw [hany, eq_self, true_and]⟩

/-- What becomes of a row: it has no name, it has the e-mail of a customer and is skipped, it is inserted, or it is
counted as imported and the unique index keeps it out. -/
inductive RowOutcome (skip : Bool) (id : Uuid) (row : ImportRowInput) (s : SalesDb) :
    Counts → Counts → SalesDb → Prop
  | unnamed (counts) (h : rowDisplayName row = none) : RowOutcome skip id row s counts (counts.1, counts.2 + 1) s
  | skipped (counts) (e) (hnamed : rowDisplayName row ≠ none) (he : row.email = some e) (hskip : skip = true)
      (hblank : trim e ≠ "") (h : Carried s.emails e) : RowOutcome skip id row s counts (counts.1, counts.2 + 1) s
  | inserted (counts) (customer) (hnamed : rowDisplayName row ≠ none) (hid : s.customers.find? id = none)
      (hemail : customer.email = row.email)
      (hkept : ∀ e ∈ row.email, skip = true → trim e ≠ "" → ¬Carried s.emails e)
      (hfree : ∀ e ∈ row.email, ∀ a ∈ s.emails, lower a ≠ lower e) :
      RowOutcome skip id row s counts (counts.1 + 1, counts.2) (s.setCustomers (·.insert id customer))
  | lost (counts) (e a) (hnamed : rowDisplayName row ≠ none) (he : row.email = some e)
      (hkept : skip = true → trim e ≠ "" → ¬Carried s.emails e) (ha : a ∈ s.emails) (h : lower a = lower e) :
      RowOutcome skip id row s counts (counts.1 + 1, counts.2) s

theorem run_insertImported {id : Uuid} {row : CustomerRow} {s : SalesDb} {r : Unit × SalesDb}
    (hfresh : s.customers.find? id = none) (h : (insertImported id row).run s = .ok r) :
    r.2 = if emailTaken s row.email then s else s.setCustomers (·.insert id row) := by
  obtain ⟨-, hr⟩ := Prog.run_execute_ok.mp h
  rw [hr]
  simp only [hfresh, Option.isSome_none, Bool.false_or]

theorem run_importRow [Formats] {ctx : RequestCtx} {skip : Bool} {n : ℕ} {row : ImportRowInput} {counts : Counts}
    {s : SalesDb} {r : Counts × SalesDb} (hfresh : s.customers.find? (ctx.fresh n) = none)
    (h : (importRow ctx skip n row counts).run s = .ok r) :
    RowOutcome skip (ctx.fresh n) row s counts r.1 r.2 := by
  unfold importRow at h
  cases hname : rowDisplayName row with
  | none =>
    rw [hname] at h
    cases h
    exact .unnamed counts hname
  | some name =>
    have hnamed : rowDisplayName row ≠ none := by
      rw [hname]
      nofun
    rw [hname] at h
    obtain ⟨duplicate, t, hdup, hrest⟩ := Prog.run_bind_ok.mp h
    obtain ⟨ht, hiff⟩ := run_isExactDuplicate hdup
    have ht : t = s := ht
    subst ht
    have hiff : duplicate = true ↔ _ := hiff
    cases duplicate with
    | true =>
      obtain ⟨hskip, e, he, hblank, hcarried⟩ := hiff.mp rfl
      cases hrest
      exact .skipped counts e hnamed he hskip hblank hcarried
    | false =>
      have hkept : ∀ e ∈ row.email, skip = true → trim e ≠ "" → ¬Carried t.emails e :=
          fun e he hskip hblank hc =>
        absurd (hiff.mpr ⟨hskip, e, he, hblank, hc⟩) Bool.false_ne_true
      obtain ⟨_, u, hinsert, hpure⟩ := Prog.run_bind_ok.mp hrest
      have hemail : (importedCustomer ctx n name row).email = row.email := rfl
      have hu : u = _ := run_insertImported hfresh hinsert
      cases hpure
      rw [hu, hemail]
      cases htaken : emailTaken t row.email with
      | true =>
        obtain ⟨e, he, a, ha, hlower⟩ := emailTaken_iff.mp htaken
        exact .lost counts e a hnamed he (hkept e he) ha hlower
      | false =>
        have hfree : ∀ e ∈ row.email, ∀ a ∈ t.emails, lower a ≠ lower e := fun e he a ha hlower =>
          absurd (emailTaken_iff.mpr ⟨e, he, a, ha, hlower⟩) (by simp [htaken])
        exact .inserted counts _ hnamed hfresh hemail hkept hfree

/-- The e-mails of rows with a name. -/
def namedEmails (rows : List ImportRowInput) : List String :=
  rows.filterMap fun row => (rowDisplayName row).bind fun _ => row.email

/-- The e-mail of a row against those before it: where exact duplicates are skipped and it is not blank, it is that
of one of them up to case and outer spaces only if one of them has it without outer spaces, and is found; otherwise
it is that of none of them up to case. -/
def RowFits (skip : Bool) (seen : List String) (e : String) : Prop :=
  if skip = true ∧ trim e ≠ "" then (∃ x ∈ seen, SameEmail x e) → Carried seen e
  else ∀ x ∈ seen, lower x ≠ lower e

def RowsFit (skip : Bool) (seen : List String) (rows : List ImportRowInput) : Prop :=
  ∀ before row after, rows = before ++ row :: after → rowDisplayName row ≠ none →
    ∀ e ∈ row.email, RowFits skip (seen ++ namedEmails before) e

/-- Two customers that have the same e-mail had it before. -/
def NoNewDuplicates (s t : SalesDb) : Prop :=
  ∀ id id' c c' e e', id ≠ id' → t.customers.find? id = some c → t.customers.find? id' = some c' →
    c.email = some e → c'.email = some e' → SameEmail e e' →
    s.customers.find? id = some c ∧ s.customers.find? id' = some c'

/-- The numbers told are true, and skipping leaves no new duplicates. -/
structure ImportTrue (body : ImportConfirmRequest) (s : SalesDb) (resp : ImportConfirmResponse) (t : SalesDb) :
    Prop where
  imported : t.customers.rows.length = s.customers.rows.length + resp.imported
  total : resp.imported + resp.skipped = body.rows.length
  unique : body.skipExactDuplicates = true → NoNewDuplicates s t

omit [TextSearch] in
theorem namedEmails_cons (row : ImportRowInput) (rows : List ImportRowInput) :
    namedEmails (row :: rows) = namedEmails [row] ++ namedEmails rows := by
  rw [← List.singleton_append, namedEmails, List.filterMap_append]
  rfl

theorem rowsFit_cons {skip : Bool} {seen : List String} {row : ImportRowInput} {rows : List ImportRowInput} :
    RowsFit skip seen (row :: rows) ↔
      (rowDisplayName row ≠ none → ∀ e ∈ row.email, RowFits skip seen e) ∧
        RowsFit skip (seen ++ namedEmails [row]) rows := by
  constructor
  · intro h
    refine ⟨fun hnamed e he => ?_, fun before row' after hrows hnamed e he => ?_⟩
    · have hfirst := h [] row rows rfl hnamed e he
      rwa [namedEmails, List.filterMap_nil, List.append_nil] at hfirst
    · have hlater := h (row :: before) row' after (congrArg (row :: ·) hrows) hnamed e he
      rwa [namedEmails_cons, ← List.append_assoc] at hlater
  · rintro ⟨hfirst, hlater⟩ before row' after hrows hnamed e he
    cases before with
    | nil =>
      cases hrows
      rw [namedEmails, List.filterMap_nil, List.append_nil]
      exact hfirst hnamed e he
    | cons x before =>
      obtain ⟨rfl, hrest⟩ := List.cons.inj hrows
      rw [namedEmails_cons, ← List.append_assoc]
      exact hlater before row' after hrest hnamed e he

instance (a b : String) : Decidable (SameEmail a b) := inferInstanceAs (Decidable (_ ∧ _ ∧ _))

instance (skip : Bool) (seen : List String) (e : String) : Decidable (RowFits skip seen e) :=
  inferInstanceAs (Decidable (if skip = true ∧ trim e ≠ "" then
    (∃ x ∈ seen, SameEmail x e) → ∃ x ∈ seen, lower x = lower (trim e)
      else ∀ x ∈ seen, lower x ≠ lower e))

theorem rowsFit_nil {skip : Bool} {seen : List String} : RowsFit skip seen [] := by
  intro before row after hrows
  cases before <;> cases hrows

instance decidableRowsFit (skip : Bool) (seen : List String) : ∀ rows, Decidable (RowsFit skip seen rows)
  | [] => .isTrue rowsFit_nil
  | row :: rows =>
    have := decidableRowsFit skip (seen ++ namedEmails [row]) rows
    decidable_of_iff' _ rowsFit_cons

section
variable [LawfulLower]

theorem lower_trim_eq {a e : String} (h : lower a = lower (trim e)) : lower (trim a) = lower (trim e) := by
  rw [LawfulLower.lower_trim, h, ← LawfulLower.lower_trim, trim_trim]

theorem sameEmail_of_lower {a e : String} (h : lower (trim a) = lower (trim e)) (hblank : trim e ≠ "") :
    SameEmail a e := by
  refine ⟨fun ha => hblank ?_, hblank, h⟩
  rw [ha, (LawfulLower.lower_eq_empty "").mpr rfl] at h
  exact (LawfulLower.lower_eq_empty _).mp h.symm

theorem trim_eq_empty_iff {a e : String} (h : lower a = lower e) : trim a = "" ↔ trim e = "" := by
  rw [← LawfulLower.lower_eq_empty, ← LawfulLower.lower_eq_empty (trim e), LawfulLower.lower_trim,
    LawfulLower.lower_trim, h]

/-- Of the e-mails seen so far, a customer has each as it is, or has it without outer spaces and its row was
skipped. -/
structure Keeps (skip : Bool) (seen : List String) (s : SalesDb) : Prop where
  known : ∀ a ∈ s.emails, a ∈ seen
  kept : ∀ x ∈ seen, x ∈ s.emails ∨ skip = true ∧ trim x ≠ "" ∧ Carried s.emails x

variable {skip : Bool} {seen : List String} {s t u : SalesDb} {e : String}

theorem Keeps.carried_iff (h : Keeps skip seen s) : Carried seen e ↔ Carried s.emails e := by
  constructor
  · rintro ⟨x, hx, hlower⟩
    rcases h.kept x hx with hx | ⟨-, -, a, ha, hcarries⟩
    · exact ⟨x, hx, hlower⟩
    · exact ⟨a, ha, hcarries.trans (lower_trim_eq hlower)⟩
  · rintro ⟨a, ha, hlower⟩
    exact ⟨a, h.known a ha, hlower⟩

theorem Keeps.rowFits_iff (h : Keeps skip seen s) : RowFits skip seen e ↔ RowFits skip s.emails e := by
  unfold RowFits
  split_ifs with hskip
  · rw [h.carried_iff]
    constructor
    · rintro hfits ⟨a, ha, hsame⟩
      exact hfits ⟨a, h.known a ha, hsame⟩
    · rintro hfits ⟨x, hx, hsame⟩
      rcases h.kept x hx with hx | ⟨-, -, a, ha, hcarries⟩
      · exact hfits ⟨x, hx, hsame⟩
      · exact ⟨a, ha, hcarries.trans hsame.2.2⟩
  · constructor
    · exact fun hfits a ha => hfits a (h.known a ha)
    · intro hfits x hx hlower
      rcases h.kept x hx with hx | ⟨hskipped, hblank, -⟩
      · exact hfits x hx hlower
      · exact hskip ⟨hskipped, fun he => hblank ((trim_eq_empty_iff hlower).mpr he)⟩

end

section
variable {s t u : SalesDb}

omit [TextSearch] in
theorem emails_insert {id : Uuid} {c : CustomerRow} (hid : s.customers.find? id = none) :
    (s.setCustomers (·.insert id c)).emails = s.emails ++ c.email.toList := by
  unfold SalesDb.emails SalesDb.setCustomers Table.values
  rw [Table.rows_insert hid, List.map_append, List.filterMap_append]
  cases hemail : c.email <;> simp [hemail]

omit [TextSearch] in
theorem mem_emails {id : Uuid} {c : CustomerRow} {e : String} (hid : s.customers.find? id = some c)
    (he : c.email = some e) : e ∈ s.emails :=
  List.mem_filterMap.mpr ⟨c, List.mem_map_of_mem (f := Prod.snd) (Table.find?_eq_some.mp hid), he⟩

omit [TextSearch] in
theorem exists_of_mem_emails {e : String} (h : e ∈ s.emails) :
    ∃ id c, s.customers.find? id = some c ∧ c.email = some e := by
  obtain ⟨c, hc, he⟩ := List.mem_filterMap.mp h
  obtain ⟨⟨id, c⟩, hrow, rfl⟩ := List.mem_map.mp hc
  exact ⟨id, c, Table.find?_eq_some.mpr hrow, he⟩

/-- Every customer is still there. -/
def Grows (s t : SalesDb) : Prop := ∀ id c, s.customers.find? id = some c → t.customers.find? id = some c

theorem noNewDuplicates_refl (s : SalesDb) : NoNewDuplicates s s := fun _ _ _ _ _ _ _ hc hc' _ _ _ => ⟨hc, hc'⟩

/-- No new duplicates come of two parts where none come of either. -/
theorem noNewDuplicates_trans_iff (hsu : Grows s u) (hut : Grows u t) :
    NoNewDuplicates s t ↔ NoNewDuplicates s u ∧ NoNewDuplicates u t := by
  constructor
  · intro h
    constructor
    · intro id id' c c' e e' hne hc hc' he he' hsame
      exact h id id' c c' e e' hne (hut id c hc) (hut id' c' hc') he he' hsame
    · intro id id' c c' e e' hne hc hc' he he' hsame
      obtain ⟨hs, hs'⟩ := h id id' c c' e e' hne hc hc' he he' hsame
      exact ⟨hsu id c hs, hsu id' c' hs'⟩
  · rintro ⟨hfirst, hsecond⟩ id id' c c' e e' hne hc hc' he he' hsame
    obtain ⟨hu, hu'⟩ := hsecond id id' c c' e e' hne hc hc' he he' hsame
    exact hfirst id id' c c' e e' hne hu hu' he he' hsame

theorem SameEmail.symm {a b : String} (h : SameEmail a b) : SameEmail b a := ⟨h.2.1, h.1, h.2.2.symm⟩

theorem noNewDuplicates_insert_iff {id : Uuid} {c : CustomerRow} (hid : s.customers.find? id = none) :
    NoNewDuplicates s (s.setCustomers (·.insert id c)) ↔
      ∀ e ∈ c.email, ∀ a ∈ s.emails, ¬SameEmail a e := by
  have hold : ∀ j x, s.customers.find? j = some x → (s.customers.insert id c).find? j = some x := fun j x hx =>
    Table.find?_insert_of_some hx c
  constructor
  · intro h e he a ha hsame
    obtain ⟨j, x, hx, hxa⟩ := exists_of_mem_emails ha
    have hne : j ≠ id := by
      rintro rfl
      rw [hid] at hx
      cases hx
    have hboth := h j id x c a e hne (hold j x hx) (Table.find?_insert_self hid c) hxa he hsame
    rw [hid] at hboth
    cases hboth.2
  · intro h j j' x x' a a' hne hx hx' ha ha' hsame
    rcases Table.find?_insert_some hx with hxs | ⟨rfl, rfl⟩
    · rcases Table.find?_insert_some hx' with hxs' | ⟨rfl, rfl⟩
      · exact ⟨hxs, hxs'⟩
      · exact absurd hsame (h a' ha' a (mem_emails hxs ha))
    · rcases Table.find?_insert_some hx' with hxs' | ⟨rfl, rfl⟩
      · exact absurd hsame.symm (h a ha a' (mem_emails hxs' ha'))
      · exact absurd rfl hne

/-- From one store and counts to the next: as many more customers as are counted, and no new duplicates. -/
structure PartTrue (skip : Bool) (s : SalesDb) (counts : Counts) (t : SalesDb) (counts' : Counts) : Prop where
  count : t.customers.rows.length + counts.1 = s.customers.rows.length + counts'.1
  unique : skip = true → NoNewDuplicates s t

/-- Every row is counted, customers stay, and no more of them are inserted than are counted. -/
structure PartSound (rows : ℕ) (s : SalesDb) (counts : Counts) (t : SalesDb) (counts' : Counts) : Prop where
  total : counts'.1 + counts'.2 = counts.1 + counts.2 + rows
  grows : Grows s t
  count_le : t.customers.rows.length + counts.1 ≤ s.customers.rows.length + counts'.1

variable {skip : Bool} {id : Uuid} {row : ImportRowInput} {counts counts' counts'' : Counts} {seen : List String}

omit [TextSearch] in
theorem PartSound.trans {m n : ℕ} (h : PartSound m s counts u counts') (h' : PartSound n u counts' t counts'') :
    PartSound (m + n) s counts t counts'' where
  total := by
    have h₁ := h.total
    have h₂ := h'.total
    omega
  grows := fun id c hc => h'.grows id c (h.grows id c hc)
  count_le := by
    have h₁ := h.count_le
    have h₂ := h'.count_le
    omega

theorem partTrue_trans_iff {m n : ℕ} (h : PartSound m s counts u counts') (h' : PartSound n u counts' t counts'') :
    PartTrue skip s counts t counts'' ↔ PartTrue skip s counts u counts' ∧ PartTrue skip u counts' t counts'' := by
  have hle := h.count_le
  have hle' := h'.count_le
  have hpairs := noNewDuplicates_trans_iff h.grows h'.grows
  constructor
  · intro htrue
    have hcount := htrue.count
    exact ⟨⟨by omega, fun hskip => (hpairs.mp (htrue.unique hskip)).1⟩,
      ⟨by omega, fun hskip => (hpairs.mp (htrue.unique hskip)).2⟩⟩
  · rintro ⟨hfirst, hsecond⟩
    have hcount := hfirst.count
    have hcount' := hsecond.count
    exact ⟨by omega, fun hskip => hpairs.mpr ⟨hfirst.unique hskip, hsecond.unique hskip⟩⟩

omit [TextSearch] in
theorem length_insert {c : CustomerRow} (hid : s.customers.find? id = none) :
    (s.setCustomers (·.insert id c)).customers.rows.length = s.customers.rows.length + 1 := by
  unfold SalesDb.setCustomers
  rw [Table.rows_insert hid, List.length_append, List.length_singleton]

theorem RowOutcome.sound (h : RowOutcome skip id row s counts counts' t) : PartSound 1 s counts t counts' := by
  cases h with
  | unnamed | skipped | lost => exact ⟨by dsimp only; omega, fun _ _ hc => hc, by dsimp only; omega⟩
  | inserted customer _ hid =>
    refine ⟨by dsimp only; omega, fun j c hc => Table.find?_insert_of_some hc customer, ?_⟩
    rw [length_insert hid]
    dsimp only
    omega

theorem RowOutcome.find?_none (h : RowOutcome skip id row s counts counts' t) {j : Uuid} (hne : j ≠ id)
    (hj : s.customers.find? j = none) : t.customers.find? j = none := by
  cases h with
  | unnamed | skipped | lost => exact hj
  | inserted customer => exact (Table.find?_insert_ne s.customers customer hne).trans hj

theorem partTrue_skipped : PartTrue skip s counts s (counts.1, counts.2 + 1) :=
  ⟨rfl, fun _ => noNewDuplicates_refl s⟩

/-- After a row that does no harm, what is seen is kept. -/
theorem RowOutcome.keeps (h : RowOutcome skip id row s counts counts' t) (hkeeps : Keeps skip seen s)
    (htrue : PartTrue skip s counts t counts') : Keeps skip (seen ++ namedEmails [row]) t := by
  cases h with
  | unnamed hunnamed =>
    have hnone : namedEmails [row] = [] := by simp [namedEmails, hunnamed]
    rwa [hnone, List.append_nil]
  | skipped e hnamed he hskip hblank hcarried =>
    obtain ⟨name, hname⟩ := Option.ne_none_iff_exists'.mp hnamed
    have hown : namedEmails [row] = [e] := by simp [namedEmails, hname, he]
    rw [hown]
    refine ⟨fun a ha => List.mem_append_left _ (hkeeps.known a ha), fun x hx => ?_⟩
    rcases List.mem_append.mp hx with hx | hx
    · exact hkeeps.kept x hx
    · rw [List.mem_singleton.mp hx]
      exact Or.inr ⟨hskip, hblank, hcarried⟩
  | lost e a hnamed he hkept ha hlower =>
    have hcount := htrue.count
    dsimp only at hcount
    omega
  | inserted customer hnamed hid hemail hkept hfree =>
    obtain ⟨name, hname⟩ := Option.ne_none_iff_exists'.mp hnamed
    have hown : namedEmails [row] = customer.email.toList := by
      rw [hemail]
      cases he : row.email <;> simp [namedEmails, hname, he]
    rw [hown]
    refine ⟨fun a ha => ?_, fun x hx => ?_⟩
    · rw [emails_insert hid] at ha
      rcases List.mem_append.mp ha with ha | ha
      · exact List.mem_append_left _ (hkeeps.known a ha)
      · exact List.mem_append_right _ ha
    · rw [emails_insert hid]
      rcases List.mem_append.mp hx with hx | hx
      · rcases hkeeps.kept x hx with hx | ⟨hskip, hblank, a, ha, hlower⟩
        · exact Or.inl (List.mem_append_left _ hx)
        · exact Or.inr ⟨hskip, hblank, a, List.mem_append_left _ ha, hlower⟩
      · exact Or.inl (List.mem_append_right _ hx)

variable [LawfulLower]

theorem RowOutcome.partTrue_iff (h : RowOutcome skip id row s counts counts' t) (hkeeps : Keeps skip seen s) :
    PartTrue skip s counts t counts' ↔
      (rowDisplayName row ≠ none → ∀ e ∈ row.email, RowFits skip seen e) := by
  simp only [hkeeps.rowFits_iff]
  cases h with
  | unnamed hunnamed => exact iff_of_true partTrue_skipped fun hnamed => absurd hunnamed hnamed
  | skipped e hnamed he hskip hblank hcarried =>
    refine iff_of_true partTrue_skipped fun _ e' he' => ?_
    cases he.symm.trans he'
    unfold RowFits
    rw [if_pos ⟨hskip, hblank⟩]
    exact fun _ => hcarried
  | lost e a hnamed he hkept ha hlower =>
    -- The row is counted, and the store is as it was.
    refine iff_of_false (fun htrue => ?_) fun hfits => ?_
    · have hcount := htrue.count
      dsimp only at hcount
      omega
    · have hfits := hfits hnamed e he
      unfold RowFits at hfits
      split_ifs at hfits with hskip
      · have htrim : lower (trim a) = lower (trim e) := by
          rw [LawfulLower.lower_trim, hlower, ← LawfulLower.lower_trim]
        exact hkept hskip.1 hskip.2 (hfits ⟨a, ha, sameEmail_of_lower htrim hskip.2⟩)
      · exact hfits a ha hlower
  | inserted customer hnamed hid hemail hkept hfree =>
    have hpairs := noNewDuplicates_insert_iff (c := customer) hid
    rw [hemail] at hpairs
    have hcount := length_insert (c := customer) hid
    have hiff : PartTrue skip s counts (s.setCustomers (·.insert id customer)) (counts.1 + 1, counts.2) ↔
        (skip = true → ∀ e ∈ row.email, ∀ a ∈ s.emails, ¬SameEmail a e) := by
      rw [← hpairs]
      exact ⟨fun htrue => htrue.unique, fun hunique => ⟨by rw [hcount]; dsimp only; omega, hunique⟩⟩
    rw [hiff]
    constructor
    · intro hnone _ e he
      unfold RowFits
      split_ifs with hskip
      · rintro ⟨a, ha, hsame⟩
        exact absurd hsame (hnone hskip.1 e he a ha)
      · exact hfree e he
    · intro hfits hskip e he a ha hsame
      have hfits := hfits hnamed e he
      unfold RowFits at hfits
      rw [if_pos ⟨hskip, hsame.2.1⟩] at hfits
      exact hkept e he hskip hsame.2.1 (hfits ⟨a, ha, hsame⟩)

section
variable [Formats] {ctx : RequestCtx} {n : ℕ} {rows : List ImportRowInput} {r : Counts × SalesDb}

omit [LawfulLower] [Formats] in
/-- The ids of the rows that follow are not taken by this one. -/
theorem RowOutcome.unused (h : RowOutcome skip (ctx.fresh n) row s counts counts' t)
    (hdistinct : Function.Injective ctx.fresh) (hunused : ∀ k, n ≤ k → s.customers.find? (ctx.fresh k) = none) :
    ∀ k, n + 1 ≤ k → t.customers.find? (ctx.fresh k) = none := by
  intro k hk
  have hne : ctx.fresh k ≠ ctx.fresh n := fun heq => by
    have hkn := hdistinct heq
    omega
  exact h.find?_none hne (hunused k (by omega))

omit [LawfulLower] in
theorem run_importRows_sound (hdistinct : Function.Injective ctx.fresh)
    (hunused : ∀ k, n ≤ k → s.customers.find? (ctx.fresh k) = none)
    (h : (importRows ctx skip n rows counts).run s = .ok r) : PartSound rows.length s counts r.2 r.1 := by
  induction rows generalizing n s counts with
  | nil =>
    cases h
    exact ⟨rfl, fun _ _ hc => hc, le_rfl⟩
  | cons row rows ih =>
    obtain ⟨counts', u, hrow, hrest⟩ := Prog.run_bind_ok.mp h
    have hout := run_importRow (hunused n le_rfl) hrow
    have hlater := ih (hout.unused hdistinct hunused) hrest
    rw [List.length_cons, add_comm]
    exact hout.sound.trans hlater

/-- A run of rows does no harm exactly where each fits those before it. -/
theorem run_importRows_iff (hdistinct : Function.Injective ctx.fresh)
    (hunused : ∀ k, n ≤ k → s.customers.find? (ctx.fresh k) = none) (hkeeps : Keeps skip seen s)
    (h : (importRows ctx skip n rows counts).run s = .ok r) :
    PartTrue skip s counts r.2 r.1 ↔ RowsFit skip seen rows := by
  induction rows generalizing n s counts seen with
  | nil =>
    cases h
    exact iff_of_true ⟨rfl, fun _ => noNewDuplicates_refl s⟩ rowsFit_nil
  | cons row rows ih =>
    obtain ⟨counts', u, hrow, hrest⟩ := Prog.run_bind_ok.mp h
    have hout := run_importRow (hunused n le_rfl) hrow
    have hlater := hout.unused hdistinct hunused
    rw [partTrue_trans_iff hout.sound (run_importRows_sound hdistinct hlater hrest), rowsFit_cons,
      ← hout.partTrue_iff hkeeps]
    exact and_congr_right fun htrue => ih hlater (hout.keeps hkeeps htrue) hrest

/-- What an import that succeeds tells is true, and no new duplicates come of skipping them, exactly where each row
fits the customers there were and the rows before it. The ids are new. -/
theorem import_true_iff {body : ImportConfirmRequest} {resp : ImportConfirmResponse}
    (hdistinct : Function.Injective ctx.fresh) (hunused : ∀ k, s.customers.find? (ctx.fresh k) = none)
    (hrun : (confirmCustomers ctx body).run s = .ok (resp, t)) :
    ImportTrue body s resp t ↔ RowsFit body.skipExactDuplicates s.emails body.rows := by
  obtain ⟨_, -, hbody⟩ := Prog.run_ofExcept_bind_ok.mp hrun
  obtain ⟨-, hbody⟩ := Prog.run_require_bind_ok.mp hbody
  obtain ⟨counts, u, hrows, hresp⟩ := Prog.run_bind_ok.mp hbody
  cases hresp
  have hsound := run_importRows_sound hdistinct (fun k _ => hunused k) hrows
  have hkeeps : Keeps body.skipExactDuplicates s.emails s := ⟨fun _ ha => ha, fun _ hx => Or.inl hx⟩
  rw [← run_importRows_iff hdistinct (fun k _ => hunused k) hkeeps hrows]
  have htotal := hsound.total
  dsimp only at htotal
  constructor
  · intro h
    have hcount := h.imported
    exact ⟨by dsimp only at hcount ⊢; omega, h.unique⟩
  · intro h
    have hcount := h.count
    exact ⟨by dsimp only at hcount ⊢; omega, by dsimp only; omega, h.unique⟩

end

end

end

theorem asciiSearch_lawful : @LawfulLower asciiSearch := by
  let := asciiSearch
  have hcomp : isWhiteSpace ∘ Char.toLower = isWhiteSpace := funext isWhiteSpace_toLower
  refine ⟨fun s => String.toList_inj.mp ?_, fun s => ?_⟩
  · change (String.ofList ((trim s).toList.map Char.toLower)).toList =
      (trim (String.ofList (s.toList.map Char.toLower))).toList
    rw [String.toList_ofList, trim_toList, trim_toList, String.toList_ofList, List.dropWhile_map, hcomp]
    unfold List.rdropWhile
    rw [← List.map_reverse, List.dropWhile_map, hcomp, List.map_reverse]
  · change String.ofList (s.toList.map Char.toLower) = "" ↔ s = ""
    rw [← String.toList_inj, String.toList_ofList, ← String.toList_inj]
    simp

def rowOf (name email : String) : ImportRowInput := ⟨some name, some email, none, none⟩

/-- The second e-mail is found without its space, and the third row has no name. -/
def twoOfThree : ImportConfirmRequest :=
  ⟨[rowOf "Acme" "a@x.com", rowOf "Acme Ltd" " A@X.com", rowOf "" "b@x.com"], true⟩

/-- Duplicates are not looked for. -/
def sameTwice : ImportConfirmRequest := ⟨[rowOf "Acme" "a@x.com", rowOf "Acme Ltd" "A@x.com"], false⟩

/-- The e-mail is inserted with its space, and not found without it. -/
def spacedTwice : ImportConfirmRequest := ⟨[rowOf "Acme" "a@x.com ", rowOf "Acme Ltd" "a@x.com"], true⟩

def SalesDb.oneUser : SalesDb := { SalesDb.empty with users := [2] }

theorem import_true_iff_three_rows :
    letI := canonicalFormats
    letI := asciiSearch
    ∃ resp t, (confirmCustomers (.nth 1) twoOfThree).run .oneUser = .ok (resp, t) ∧ resp.imported = 1 ∧
      ImportTrue twoOfThree .oneUser resp t := by
  let := canonicalFormats
  let := asciiSearch
  have := asciiSearch_lawful
  obtain ⟨resp, t, hrun, himported⟩ := Prog.run_of_check (p := confirmCustomers (.nth 1) twoOfThree)
    (s := SalesDb.oneUser) (P := fun resp _ => decide (resp.imported = 1)) (by decide +kernel)
  have hdistinct : Function.Injective (RequestCtx.nth 1).fresh := fun _ _ h => Nat.add_left_cancel h
  exact ⟨resp, t, hrun, of_decide_eq_true himported,
    (import_true_iff hdistinct (fun _ => rfl) hrun).mpr (by decide +kernel)⟩

/-- One customer is inserted and two are told; and two customers are inserted that have the same e-mail. -/
theorem import_counts_lost_row :
    letI := canonicalFormats
    letI := asciiSearch
    (∃ resp t, (confirmCustomers (.nth 1) sameTwice).run .oneUser = .ok (resp, t) ∧ resp.imported = 2 ∧
      t.customers.rows.length = SalesDb.oneUser.customers.rows.length + 1) ∧
    ∃ resp t, (confirmCustomers (.nth 1) spacedTwice).run .oneUser = .ok (resp, t) ∧
      ¬NoNewDuplicates .oneUser t := by
  let := canonicalFormats
  let := asciiSearch
  constructor
  · obtain ⟨resp, t, hrun, hcheck⟩ := Prog.run_of_check (p := confirmCustomers (.nth 1) sameTwice)
      (s := SalesDb.oneUser)
      (P := fun resp t => decide (resp.imported = 2 ∧
        t.customers.rows.length = SalesDb.oneUser.customers.rows.length + 1)) (by decide +kernel)
    obtain ⟨himported, hlength⟩ := of_decide_eq_true hcheck
    exact ⟨resp, t, hrun, himported, hlength⟩
  · obtain ⟨resp, t, hrun, hcheck⟩ := Prog.run_of_check (p := confirmCustomers (.nth 1) spacedTwice)
      (s := SalesDb.oneUser)
      (P := fun _ t => decide ((t.customers.find? 101).map (·.email) = some (some "a@x.com ") ∧
        (t.customers.find? 102).map (·.email) = some (some "a@x.com"))) (by decide +kernel)
    obtain ⟨hfirst, hsecond⟩ := of_decide_eq_true hcheck
    obtain ⟨c, hc, he⟩ := Option.map_eq_some_iff.mp hfirst
    obtain ⟨c', hc', he'⟩ := Option.map_eq_some_iff.mp hsecond
    refine ⟨resp, t, hrun, fun hnone => ?_⟩
    have hboth := hnone 101 102 c c' _ _ (by decide) hc hc' he he' (by decide +kernel)
    cases hboth.1

end Noxara.Sales
