import Noxara.SalesLeads
import Noxara.TransactionRecheck

/-! Requests on one lead side by side: how many customers and deals it is converted to, and what stays of a
converted lead. -/
namespace Noxara.Sales

open Transaction
open Finance (Uuid Formats canonicalFormats AppError PublicId parsePublicId)

/-- What the row of a lead guards: the lead, and the tables of what it is converted to. -/
structure LeadPart where
  lead : Option LeadRow
  customers : Table Uuid CustomerRow
  deals : Table Uuid DealRow

def SalesDb.leadPart (leadId : Uuid) (s : SalesDb) : LeadPart := ⟨s.leads.find? leadId, s.customers, s.deals⟩

/-- How often the lead may still be converted. -/
def LeadRow.conversionsLeft (row : LeadRow) : Nat := if row.status = .converted then 0 else 1

/-- There are at most `n` customers and `m` deals, with those that the lead may still be converted to. -/
def LeadPart.Within (n m : Nat) (p : LeadPart) : Prop :=
  ∃ row, p.lead = some row ∧ p.customers.keys.length + row.conversionsLeft ≤ n ∧
    p.deals.keys.length + row.conversionsLeft ≤ m

def LeadPart.StaysConverted (a b : LeadPart) : Prop :=
  ∀ row, a.lead = some row → row.status = .converted → ∃ next, b.lead = some next ∧
    next.status = .converted ∧
    next.convertedCustomerId = row.convertedCustomerId ∧ next.convertedDealId = row.convertedDealId

def leadGuard (leadId : Uuid) (n m : Nat) : Guard SalesDb SalesLock LeadPart :=
  ⟨.lead leadId, SalesDb.leadPart leadId, LeadPart.Within n m⟩

/-- What a request makes of a lead. -/
def Leads (n m : Nat) (a b : LeadPart) : Prop := a.StaysConverted b ∧ b.Within n m

/-- The request is an edit that, by the row it has read, leaves the lead converted. -/
def LeadRequest.KeepsConverted (row : LeadRow) : LeadRequest → Prop
  | update _ _ body => body.written row = some .converted
  | _ => False

/-- The condition on a statement that takes the row of the lead: the lead is not converted yet, or the statement
leaves it so. -/
def LeadOpen (o : LeadRequest) (seen : List LeadPart) (now : LeadPart) : Prop :=
  ∀ row, now.lead = some row → row.status = .converted →
    ∃ p old, seen.head? = some p ∧ p.lead = some old ∧ o.KeepsConverted old

theorem length_keys_insert_le {ρ : Type} (t : Table Uuid ρ) (k : Uuid) (r : ρ) :
    (t.insert k r).keys.length ≤ t.keys.length + 1 := by
  have h := t.countP_insert_le k r fun _ => true
  simpa [Table.keys, Table.values] using h

section
variable {leadId : Uuid} {n m : Nat} {A : List LeadPart → LeadPart → Prop} {eff : LeadPart → LeadPart}
  {seen : List LeadPart}

theorem rechecks_updateLeadRow_bind {α : Type} {status : Option LeadStatus} {change : LeadRow → LeadRow}
    {f : LeadRow → SalesTx α}
    (hf : ∀ base row st, base.Within n m → A seen base → status = some st → (eff base).lead = some row →
      (f (leadWith st change row)).Held (SalesDb.leadPart leadId) (Leads n m base)
        { eff base with lead := some (leadWith st change row) }) :
    (updateLeadRow leadId status change >>= f).Rechecks (leadGuard leadId n m) A (Leads n m) eff seen := by
  refine .executeReturning_bind (fun v => List.mem_singleton_self _) fun v base new hinv hbase hA hc => ?_
  have hlead : (eff base).lead = v.leads.find? leadId := congrArg LeadPart.lead hbase
  cases hfind : v.leads.find? leadId with
  | none =>
    simp only [hfind] at hc
    cases hc
  | some old =>
    cases status with
    | none =>
      simp only [hfind] at hc
      cases hc
    | some st =>
      simp only [hfind, ensure_bind_ok] at hc
      obtain ⟨-, -, -, -, hnew⟩ := hc
      cases hnew
      have hold : (eff base).lead = some old := hlead.trans hfind
      refine ⟨_, fun s hs => ?_, hf base old st hinv hA rfl hold⟩
      have hs : s.leadPart leadId = eff base := hs.trans hbase.symm
      have hrow : s.leads.find? leadId = some old := by
        rw [← hold, ← hs]
        rfl
      rw [← hs]
      simp [leadGuard, SalesDb.leadPart, SalesDb.setLeads, Table.find?_modify_self, hrow]

/-- The new customer and its contact, before the lock. -/
theorem rechecks_insertConverted_bind [Formats] [TextSearch] {α : Type} {ctx : RequestCtx} {row : LeadRow}
    {f : Unit → SalesTx α}
    (hf : ∀ (customer : CustomerRow) seen, (f ()).Rechecks (leadGuard leadId n m) A (Leads n m)
      (fun p => { eff p with customers := (eff p).customers.insert (ctx.fresh 0) customer }) seen) :
    (insertConverted ctx row >>= f).Rechecks (leadGuard leadId n m) A (Leads n m) eff seen := by
  unfold insertConverted
  simp only [bind_assoc]
  refine .before_bind (m := fun p => { p with customers := p.customers.insert (ctx.fresh 0) _ })
    (fun v hk => ?_) (fun _ _ => rfl) fun v => ?_
  · simp [leadGuard] at hk
  · exact .keeps_bind (fun v => List.not_mem_nil) (fun _ _ => rfl) fun _ => hf _ _

theorem spares_insertStage {stage : Uuid × StageRow} : (insertStage stage).Spares (leadGuard leadId n m) := by
  refine .execute (fun v hk => ?_) fun _ _ => rfl
  simp [leadGuard] at hk

theorem spares_ensureDefaultPipeline [Formats] {ctx : RequestCtx} :
    (ensureDefaultPipeline ctx).Spares (leadGuard leadId n m) := by
  refine .bind (.query _) fun found => ?_
  cases found with
  | some id => trivial
  | none =>
    refine .bind (.execute (fun v hk => ?_) fun _ _ => rfl) fun _ => .bind (.query _) fun seeds => ?_
    · simp [leadGuard] at hk
    · exact .bind (.each (fun _ => spares_insertStage) _) fun _ => trivial

theorem spares_defaultOpenStage {pipelineId : Uuid} :
    (defaultOpenStage pipelineId).Spares (leadGuard leadId n m) := by
  refine .bind (.query _) fun found => ?_
  cases found with
  | some id => trivial
  | none => exact .query _

section
variable [TextSearch]

theorem spares_exactMatches {rows : SalesDb → List Candidate} {email : Option String} :
    (exactMatches rows email).Spares (leadGuard leadId n m) := by
  unfold exactMatches
  split
  · trivial
  · exact .query _

theorem spares_nearMatches {rows : SalesDb → List Candidate} {name : String} :
    (nearMatches rows name).Spares (leadGuard leadId n m) := by
  unfold nearMatches
  split_ifs
  · trivial
  · exact .query _

theorem spares_findDuplicates {rows named : SalesDb → List Candidate}
    {asMatch : Candidate → Rat → String → DuplicateMatch} {name : String} {email : Option String} :
    (findDuplicates rows named asMatch name email).Spares (leadGuard leadId n m) :=
  .bind spares_exactMatches fun _ => .bind spares_nearMatches fun _ => trivial

theorem spares_duplicatesOf {row : LeadRow} {name : String} :
    (duplicatesOf row name).Spares (leadGuard leadId n m) := by
  unfold duplicatesOf findLeadDuplicates findCustomerDuplicates
  exact .bind spares_findDuplicates fun _ => .bind spares_findDuplicates fun _ => trivial

end

theorem spares_existingConversion {row : LeadRow} : (existingConversion row).Spares (leadGuard leadId n m) := by
  unfold existingConversion
  split
  · exact .bind (.query _) fun _ => .bind (.okOr _ _) fun _ => .bind (.query _) fun _ => .bind (.okOr _ _) fun _ =>
      trivial
  · trivial

theorem keeps_insertSalesEvent (event : SalesEvent) :
    (insertSalesEvent event).Writes (Prog.Keeps (SalesDb.leadPart leadId)) :=
  Prog.writes_execute (Prog.Keeps.id _) fun _ _ _ => rfl

theorem keeps_putSalesAnswer (scope : String) (key : Option String) (answer : SalesAnswer) :
    (putSalesAnswer scope key answer).Writes (Prog.Keeps (SalesDb.leadPart leadId)) := by
  exact AnswerTable.writes_record (Prog.Keeps.id _) (fun _ _ _ _ => rfl) _ _ _

section
variable [Formats]

omit [Formats] in
theorem rechecks_ownedLead_bind {α : Type} {ctx : RequestCtx} {f : LeadRow → SalesTx α}
    (hf : ∀ row p, p.lead = some row → (f row).Rechecks (leadGuard leadId n m) A (Leads n m) eff (p :: seen)) :
    (ownedLead ctx leadId >>= f).Rechecks (leadGuard leadId n m) A (Leads n m) eff seen := by
  unfold ownedLead
  simp only [bind_assoc]
  exact .query_bind fun v base _ _ => .okOr_bind fun row hrow => .ofExcept_bind fun _ _ => hf row _ hrow

omit [Formats] in
theorem leads_of_status {base : LeadPart} {row : LeadRow} {st : LeadStatus}
    {change : LeadRow → LeadRow} (hinv : base.Within n m) (hrow : base.lead = some row)
    (hst : row.status = .converted → st = .converted)
    (hlinks : ∀ r, (change r).convertedCustomerId = r.convertedCustomerId ∧
      (change r).convertedDealId = r.convertedDealId) :
    Leads n m base { base with lead := some (leadWith st change row) } := by
  obtain ⟨r, hr, hn, hm⟩ := hinv
  cases hrow.symm.trans hr
  refine ⟨fun old hold hc => ?_, leadWith st change row, rfl, ?_⟩
  · cases hrow.symm.trans hold
    exact ⟨_, rfl, hst hc, hlinks row⟩
  · have hleft : (leadWith st change row).conversionsLeft ≤ row.conversionsLeft := by
      unfold LeadRow.conversionsLeft
      split_ifs with hnew hold hold
      · exact le_rfl
      · exact Nat.zero_le 1
      · exact absurd (hst hold) hnew
      · exact le_rfl
    dsimp only
    constructor <;> omega

omit [Formats] in
theorem leads_of_conversion {base : LeadPart} {row : LeadRow} {change : LeadRow → LeadRow}
    (hinv : base.Within n m) (hrow : base.lead = some row) (hopen : row.status ≠ .converted) (k j : Uuid)
    (customer : CustomerRow) (deal : DealRow) :
    Leads n m base ⟨some (leadWith .converted change row), base.customers.insert k customer,
      base.deals.insert j deal⟩ := by
  obtain ⟨r, hr, hn, hm⟩ := hinv
  cases hrow.symm.trans hr
  refine ⟨fun old hold hc => ?_, leadWith .converted change row, rfl, ?_⟩
  · cases hrow.symm.trans hold
    exact absurd hc hopen
  · have hleft : row.conversionsLeft = 1 := if_neg hopen
    have hnone : (leadWith .converted change row).conversionsLeft = 0 := rfl
    have hcustomers := length_keys_insert_le base.customers k customer
    have hdeals := length_keys_insert_le base.deals j deal
    dsimp only
    constructor <;> omega

theorem rechecks_updateLead {ctx : RequestCtx} {id : String} {body : UpdateLeadRequest}
    (hid : parsePublicId .lead id = .ok leadId) :
    (updateLead ctx id body).Rechecks (leadGuard leadId n m) (LeadOpen (.update ctx id body)) (Leads n m)
      (fun p => p) [] := by
  refine .ofExcept_bind fun k hk => .ofExcept_bind fun _ _ => ?_
  cases hid.symm.trans hk
  refine rechecks_ownedLead_bind fun row p hp => .ofExcept_bind fun _ _ => .ofExcept_bind fun owner _ => ?_
  refine rechecks_updateLeadRow_bind fun base r st hinv hA hst hr => ?_
  refine leads_of_status hinv hr (fun hconverted => ?_) fun _ => ⟨rfl, rfl⟩
  obtain ⟨q, old, hq, hold, hkeeps⟩ := hA r hr hconverted
  cases hq
  cases hp.symm.trans hold
  exact Option.some.inj (hst.symm.trans hkeeps)

theorem rechecks_transitionStatus {o : LeadRequest} {ctx : RequestCtx} {id : String} {newStatus : LeadStatus}
    (hid : parsePublicId .lead id = .ok leadId) (ho : ∀ row, ¬o.KeepsConverted row) :
    (transitionStatus ctx id newStatus).Rechecks (leadGuard leadId n m) (LeadOpen o) (Leads n m)
      (fun p => p) [] := by
  refine .ofExcept_bind fun k hk => .ofExcept_bind fun _ _ => ?_
  cases hid.symm.trans hk
  refine rechecks_ownedLead_bind fun row p _ => .require_bind fun _ => ?_
  refine rechecks_updateLeadRow_bind fun base r st hinv hA _ hr => ?_
  refine leads_of_status hinv hr (fun hconverted => ?_) fun _ => ⟨rfl, rfl⟩
  obtain ⟨q, old, -, -, hkeeps⟩ := hA r hr hconverted
  exact absurd hkeeps (ho old)

variable [TextSearch]

theorem rechecks_createConversion {ctx : RequestCtx} {id : String} {row : LeadRow} {body : ConvertLeadRequest} :
    (createConversion ctx leadId row body).Rechecks (leadGuard leadId n m) (LeadOpen (.convert ctx id body))
      (Leads n m) (fun p => p) seen := by
  refine rechecks_insertConverted_bind fun customer seen => ?_
  refine .spares_bind spares_ensureDefaultPipeline fun pipelineId seen => ?_
  refine .spares_bind spares_defaultOpenStage fun stage seen => .okOr_bind fun stageId _ => ?_
  refine .before_bind (m := fun p => { p with deals := p.deals.insert (ctx.fresh 2) _ })
    (fun v hk => ?_) (fun _ _ => rfl) fun v => ?_
  · simp [leadGuard] at hk
  · refine rechecks_updateLeadRow_bind fun base r st hinv hA hst hr => .of_writes ?_ ?_
    · exact .bind (keeps_insertSalesEvent _) fun _ => .bind (keeps_insertSalesEvent _) fun _ =>
        .bind (Prog.writes_query (Prog.Keeps.id _) _) fun _ => .bind (Prog.writes_okOr _ _) fun _ =>
        .bind (Prog.writes_query (Prog.Keeps.id _) _) fun _ => .bind (Prog.writes_okOr _ _) fun _ =>
        .bind (keeps_putSalesAnswer _ _ _) fun _ => trivial
    · have hopen : r.status ≠ .converted := by
        intro hconverted
        obtain ⟨q, old, -, -, hkeeps⟩ := hA r hr hconverted
        exact hkeeps
      cases hst
      exact leads_of_conversion hinv hr hopen _ _ _ _

theorem rechecks_convertLead {ctx : RequestCtx} {id : String} {body : ConvertLeadRequest}
    (hid : parsePublicId .lead id = .ok leadId) :
    (convertLead ctx id body).Rechecks (leadGuard leadId n m) (LeadOpen (.convert ctx id body)) (Leads n m)
      (fun p => p) [] := by
  refine .ofExcept_bind fun k hk => .ofExcept_bind fun _ _ => ?_
  cases hid.symm.trans hk
  refine .replayOr (fun _ _ => rfl) fun _ => rechecks_ownedLead_bind fun row p _ => ?_
  split_ifs
  · exact .of_spares spares_existingConversion
  · exact rechecks_createConversion
  · refine .spares_bind spares_duplicatesOf fun found seen => ?_
    unfold convertUnless
    split_ifs
    · exact rechecks_createConversion
    · exact fun _ _ => rfl

def LeadRequest.On (leadId : Uuid) : LeadRequest → Prop
  | update _ id _ | qualify _ id | disqualify _ id | convert _ id _ => parsePublicId .lead id = .ok leadId

theorem rechecks_leadRequest {o : LeadRequest} (h : o.On leadId) :
    o.body.Rechecks (leadGuard leadId n m) (LeadOpen o) (Leads n m) (fun p => p) [] := by
  cases o with
  | update ctx id body => exact rechecks_updateLead h
  | qualify ctx id => exact rechecks_transitionStatus h fun _ hk => hk
  | disqualify ctx id => exact rechecks_transitionStatus h fun _ hk => hk
  | convert ctx id body => exact rechecks_convertLead h

theorem disciplined_leads {ι : Type} {requests : ι → LeadRequest} (hon : ∀ i, (requests i).On leadId)
    {db : SalesDb} (h0 : (db.leadPart leadId).Within n m) :
    Watch.Disciplined (leadGuard leadId n m) (fun i => LeadOpen (requests i)) (fun _ => Leads n m)
      (fun i => (requests i).body) db where
  rechecks i := rechecks_leadRequest (hon i)
  start := h0
  keeps _ _ _ _ h := h.2

end

end

/-- Requests on one lead whose updates of it find it not converted, or leave it so: it is converted at most
once, and once it is converted its status, customer and deal stay. -/
theorem lead_converted_at_most_once [Formats] [TextSearch] {ι : Type} [DecidableEq ι] {leadId : Uuid}
    {requests : ι → LeadRequest} (hon : ∀ i, (requests i).On leadId) {db : SalesDb} {lead : LeadRow}
    (hlead : db.leads.find? leadId = some lead)
    {W V : Watch ι SalesDb SalesLock AppError (Nat × SalesAnswer) LeadPart}
    (hW : Watch.Reached (leadGuard leadId (db.customers.keys.length + lead.conversionsLeft)
      (db.deals.keys.length + lead.conversionsLeft)) (fun i => LeadOpen (requests i)) (fun i => (requests i).body) db W)
    (hV : Relation.ReflTransGen (Watch.Step (leadGuard leadId (db.customers.keys.length + lead.conversionsLeft)
      (db.deals.keys.length + lead.conversionsLeft)) fun i => LeadOpen (requests i)) W V) :
    W.config.db.customers.keys.length ≤ db.customers.keys.length + lead.conversionsLeft ∧
      W.config.db.deals.keys.length ≤ db.deals.keys.length + lead.conversionsLeft ∧
      ∀ row, W.config.db.leads.find? leadId = some row → row.status = .converted →
        ∃ next, V.config.db.leads.find? leadId = some next ∧ next.status = .converted ∧
          next.convertedCustomerId = row.convertedCustomerId ∧ next.convertedDealId = row.convertedDealId := by
  have hdisc := disciplined_leads hon (show (db.leadPart leadId).Within _ _ from ⟨lead, hlead, le_rfl, le_rfl⟩)
  obtain ⟨_, _, hcustomers, hdeals⟩ := hW.inv hdisc
  refine ⟨?_, ?_, fun row hrow hconverted => ?_⟩
  · exact (Nat.le_add_right _ _).trans hcustomers
  · exact (Nat.le_add_right _ _).trans hdeals
  · obtain ⟨hstays, -⟩ := hW.settled hV hdisc (v := fun _ => ())
      (F := LeadPart.StaysConverted (W.config.db.leadPart leadId)) (fun r hr hc => ⟨r, hr, hc, rfl, rfl⟩)
      fun i a b _ ha hG => by
        refine ⟨fun r hr hc => ?_, rfl⟩
        obtain ⟨r', hr', hc', hcustomer', hdeal'⟩ := ha r hr hc
        obtain ⟨x, hx, hcx, hcustomer, hdeal⟩ := hG.1 r' hr' hc'
        exact ⟨x, hx, hcx, hcustomer.trans hcustomer', hdeal.trans hdeal'⟩
    exact hstays row hrow hconverted

section
variable [Formats]

def firstLead : String := (PublicId.mk .lead 30).asStr

def ada : LeadRow where
  publicId := firstLead
  name := "Ada"
  email := none
  phone := none
  companyName := none
  source := none
  status := .new
  score := 0
  ownerUserId := some 2
  notes := none
  convertedCustomerId := none
  convertedDealId := none
  version := 1

def SalesDb.onePipeline : SalesDb := { SalesDb.empty with
  pipelines := Table.empty.insert 20 ⟨(PublicId.mk .pipeline 20).asStr, "Default Pipeline", true, 0⟩
  stages := Table.empty.insert 21 ⟨(PublicId.mk .stage 21).asStr, 20, "New", 0, 0, false, false⟩
  users := [2] }

def SalesDb.oneLead : SalesDb := { SalesDb.onePipeline with leads := Table.empty.insert 30 ada }

def conversion : LeadRequest := .convert (.nth 1) firstLead {}

def renamed : LeadRequest := .update (.nth 2) firstLead { name := some "Ada L." }

def forced (n : Nat) : LeadRequest := .convert (.nth n) firstLead { force := true }

end

/-- Check the condition of a statement that takes the row of a lead. -/
def leadOpen (o : LeadRequest) (seen : List LeadPart) (now : LeadPart) : Bool :=
  now.lead.all fun row => row.status ≠ .converted ||
    match o, seen with
    | .update _ _ body, p :: _ => p.lead.any fun old => decide (body.written old = some .converted)
    | _, _ => false

theorem leadOpen_sound {o : LeadRequest} {seen : List LeadPart} {now : LeadPart}
    (h : leadOpen o seen now = true) : LeadOpen o seen now := by
  intro row hrow hconverted
  simp only [leadOpen, hrow, Option.all_some, hconverted, ne_eq, not_true_eq_false, decide_false,
    Bool.false_or] at h
  split at h
  · next ctx id body p rest =>
    obtain ⟨old, hold, hkeeps⟩ := (Option.any_eq_true _ _).mp h
    have hwritten : body.written old = some .converted := of_decide_eq_true hkeeps
    exact ⟨p, old, rfl, hold, hwritten⟩
  · cases h

/-- The lead is converted, to a customer and a deal, and then renamed. -/
theorem lead_converted_at_most_once_and_renamed :
    letI := canonicalFormats
    letI := asciiSearch
    ∃ (W V : Watch (Fin 2) SalesDb SalesLock AppError (Nat × SalesAnswer) LeadPart) (row next : LeadRow),
      W.config.db.leads.find? 30 = some row ∧ row.status = .converted ∧ row.convertedDealId = some 102 ∧
      W.config.db.customers.keys.length ≤ 0 + 1 ∧ W.config.db.deals.keys.length ≤ 0 + 1 ∧
      V.config.db.leads.find? 30 = some next ∧ next.name = "Ada L." ∧ next.status = .converted ∧
      next.convertedCustomerId = row.convertedCustomerId ∧ next.convertedDealId = row.convertedDealId := by
  let := canonicalFormats
  let := asciiSearch
  have hid : parsePublicId .lead firstLead = .ok 30 := by decide +kernel
  obtain ⟨W, V, hW, hV, hconverted, hnamed⟩ := Watch.Reached.of_play (g := leadGuard 30 1 1)
    (P := fun i => leadOpen (sideBySide conversion renamed i))
    (A := fun i => LeadOpen (sideBySide conversion renamed i)) (fun i seen r => leadOpen_sound)
    (fun i : Fin 2 => (sideBySide conversion renamed i).body) .oneLead (Move.through left 13) (Move.through right 2)
    (fun W => (W.config.db.leads.find? 30).any fun row => row.status = .converted ∧ row.convertedDealId = some 102)
    (fun V => (V.config.db.leads.find? 30).any (·.name = "Ada L.")) (by decide +kernel)
  obtain ⟨row, hrow, hs⟩ := (Option.any_eq_true _ _).mp hconverted
  obtain ⟨hc, hdeal⟩ := of_decide_eq_true hs
  obtain ⟨r, hr, hname⟩ := (Option.any_eq_true _ _).mp hnamed
  have hon : ∀ i : Fin 2, (sideBySide conversion renamed i).On 30 := by
    intro i
    unfold sideBySide
    split_ifs
    · exact hid
    · exact hid
  obtain ⟨hcustomers, hdeals, hstays⟩ := lead_converted_at_most_once hon
    (show SalesDb.oneLead.leads.find? 30 = some ada from rfl) hW hV
  obtain ⟨next, hnext, hrest⟩ := hstays row hrow hc
  cases hr.symm.trans hnext
  exact ⟨W, V, row, r, hrow, hc, hdeal, hcustomers, hdeals, hnext, of_decide_eq_true hname, hrest⟩

/-- Two conversions that both found the lead open: there are two customers and two deals, and the lead goes
over from the first ones to the second ones. -/
theorem lead_converted_twice :
    letI := canonicalFormats
    letI := asciiSearch
    ∃ c d, Reachable (fun i : Fin 2 => (sideBySide (forced 1) (forced 2) i).body) .oneLead c ∧
      Relation.ReflTransGen Step c d ∧
      ((c.db.leads.find? 30).any fun row => row.status = .converted ∧ row.convertedCustomerId = some 200 ∧
        row.convertedDealId = some 202) = true ∧
      (d.db.customers.keys = [200, 100] ∧ d.db.deals.keys = [202, 102] ∧
        ∃ row, d.db.leads.find? 30 = some row ∧ row.convertedCustomerId = some 100 ∧
          row.convertedDealId = some 102) := by
  let := canonicalFormats
  let := asciiSearch
  obtain ⟨c, d, hc, hd, hfirst, hsecond⟩ := Reachable.of_play_twice
    (fun i : Fin 2 => (sideBySide (forced 1) (forced 2) i).body) .oneLead
    ([.exec left] ++ Move.through right 11) (Move.through left 10)
    (fun c => (c.db.leads.find? 30).any fun row => row.status = .converted ∧
      row.convertedCustomerId = some 200 ∧ row.convertedDealId = some 202)
    (fun d => decide (d.db.customers.keys = [200, 100] ∧ d.db.deals.keys = [202, 102]) &&
      (d.db.leads.find? 30).any fun row => row.convertedCustomerId = some 100 ∧ row.convertedDealId = some 102)
    (by decide +kernel)
  obtain ⟨htwo, hlead⟩ := Bool.and_eq_true_iff.mp hsecond
  obtain ⟨row, hrow, hlinks⟩ := (Option.any_eq_true _ _).mp hlead
  obtain ⟨hcustomers, hdeals⟩ := of_decide_eq_true htwo
  exact ⟨c, d, hc, hd, hfirst, hcustomers, hdeals, row, hrow, of_decide_eq_true hlinks⟩

end Noxara.Sales
