import Noxara.FixedAssets
import Noxara.JournalNets

/-! Depreciation in two ledgers. Each charge is added to the asset; the finance service keeps the
first entry of an asset and answers every later request with it. The two agree as long as each charge
finds no entry of its asset. -/
namespace Noxara.Inventory

open Transaction
open Finance (Uuid Date PublicId IdKind Formats SourceType canonicalFormats i64Min i64Max saturateI64)

def fromAsset (assetId : Uuid) (sourceType : SourceType) (sourceId : Uuid) : Bool :=
  sourceType = .inventoryDepreciation ∧ sourceId = assetId

/-- The amount of the depreciation journals of an asset. -/
def ledgerDepreciation (db : Finance.Db) (assetId : Uuid) : Int :=
  db.sumFrom (fromAsset assetId) (·.debitMinor)

/-- The finance service has no depreciation journal of the asset. -/
def Unposted (db : Finance.Db) (assetId : Uuid) : Prop := db.entriesFrom (fromAsset assetId) = []

instance (db : Finance.Db) (assetId : Uuid) : Decidable (Unposted db assetId) :=
  inferInstanceAs (Decidable (_ = []))

/-- What can be depreciated at most. -/
def AssetRow.depreciable (row : AssetRow) : Int := max (row.acquisitionCostMinor - row.salvageMinor) 0

/-- The identifier that was read from a text can be read from the text written for it. -/
def RereadsUuids [Formats] : Prop :=
  ∀ s u, Formats.uuidParseStr s = some u →
    Formats.uuidParseStr (Finance.trim (Formats.uuidDisplay u)) = some u

/-- A charge stays within the base, and the sum that is stored is the exact one. -/
theorem straightLine_ok {row : AssetRow} {months dep : Int} (h : row.straightLine months = .ok dep)
    (hpos : 0 < dep) : row.accumulatedDepreciationMinor + dep ≤ row.depreciable ∧
      saturateI64 (row.accumulatedDepreciationMinor + dep) = row.accumulatedDepreciationMinor + dep := by
  unfold AssetRow.straightLine straightLineDepreciationMinor at h
  split_ifs at h with hnone hrange
  · cases h
    omega
  · dsimp only at h
    split at h
    · cases h
    · split_ifs at h with _ hremaining <;> cases h
      · obtain ⟨hmin, hmax⟩ := Finance.inI64_iff.mp hrange
        obtain ⟨-, hle⟩ := Finance.inI64_iff.mp hremaining
        unfold AssetRow.depreciable saturateI64
        unfold i64Min i64Max at *
        omega
      · -- Where what remains is out of range, nothing is charged.
        omega

section
variable [Formats]

theorem parsePublicId_uuid {kind : IdKind} {raw : String} {u : Uuid} (h : parsePublicId kind raw = .ok u) :
    ∃ s, Formats.uuidParseStr s = some u := by
  have hpid := Finance.parseIdOfKind_ok.mp h
  unfold PublicId.fromStr at hpid
  split_ifs at hpid
  split at hpid
  · split at hpid
    · next uuid huuid =>
      cases hpid
      exact ⟨_, huuid⟩
    · cases hpid
  · cases hpid

omit [Formats] in
theorem parseSourceType_depreciation :
    Finance.parseSourceType "inventory_depreciation" = .ok .inventoryDepreciation := by
  decide

/-- The source document of an entry that is not a manual one is read from the request. -/
theorem parseSourceId_ok {ctx : Finance.RequestCtx} {sourceType : SourceType} {raw : String} {id : Uuid}
    (h : Finance.parseSourceId ctx sourceType raw = .ok id) (hne : sourceType ≠ .manual) :
    Formats.uuidParseStr (Finance.trim raw) = some id := by
  unfold Finance.parseSourceId at h
  rw [if_neg hne] at h
  split_ifs at h
  exact Finance.foundOr_ok.mp h

/-- A charge against an asset without a journal posts one with its amount; every other is answered
with the journal that is there. -/
theorem serve_depreciation {link : FinanceLink} {d : Uuid} {row : AssetRow} {dep : Int} {db : Finance.Db}
    {r : Finance.Response × Finance.Db} (h : link.serve (depreciationJournal d row dep) db = .ok r)
    (hreads : RereadsUuids) (hd : ∃ s, Formats.uuidParseStr s = some d) (hfk : db.LinesBelong) :
    r.2.LinesBelong ∧ ∀ e,
      ledgerDepreciation r.2 e = ledgerDepreciation db e + (if d = e ∧ Unposted db d then dep else 0) ∧
        (Unposted r.2 e ↔ Unposted db e ∧ d ≠ e) := by
  obtain ⟨s, hs⟩ := hd
  unfold FinanceLink.serve at h
  dsimp only at h
  split at h
  · next res hrun =>
    cases h
    obtain ⟨accounts, sourceType, sourceId, reverses, htype, hsource, hrev, -, hcase⟩ :=
      Finance.postJournalHandler_ok hrun
    obtain rfl := Except.ok.inj (parseSourceType_depreciation.symm.trans htype)
    obtain rfl : none = reverses := Except.ok.inj hrev
    obtain rfl : d = sourceId :=
      Option.some.inj ((hreads s d hs).symm.trans (parseSourceId_ok hsource nofun))
    rcases hcase with ⟨hposted, idempotency, ht⟩ |
      ⟨hunposted, draft, t, idempotency, hsourceType, hsourceId, -, -, hlines, hpost, ht⟩
    · have hne : ¬Unposted db d := hposted
      have hsame : ∀ e, r.2.entriesFrom (fromAsset e) = db.entriesFrom (fromAsset e) := fun e => by rw [ht]; rfl
      refine ⟨?_, fun e => ⟨?_, ?_⟩⟩
      · rw [ht]
        exact hfk
      · rw [if_neg fun hx => hne hx.2, add_zero, ht]
        rfl
      · rw [Unposted, hsame]
        refine ⟨fun he => ⟨he, ?_⟩, And.left⟩
        rintro rfl
        exact hne he
    · have hpicked : ∀ e, fromAsset e draft.sourceType draft.sourceId = decide (d = e) := fun e => by
        simp [fromAsset, hsourceType, hsourceId]
      have hamount : (draft.lines.map fun l => (l.row (link.ctx.fresh 0)).debitMinor).sum = dep := by
        rw [hlines]
        simp [Finance.Db.reversedLines, JournalRequest.body, depreciationJournal,
          Finance.JournalLineInput.line, Finance.LedgerLine.row]
      have hun : Unposted db d := hunposted
      rw [ht]
      refine ⟨hpost.linesBelong hfk, fun e => ⟨?_, ?_⟩⟩
      · have hsum := hpost.sumFrom hfk (fromAsset e) (·.debitMinor)
        simp only [hpicked, hamount, decide_eq_true_eq] at hsum
        simp only [hun, and_true]
        exact hsum
      · obtain ⟨entry, hentries⟩ := hpost.entriesFrom (fromAsset e)
        rw [hpicked] at hentries
        change t.entriesFrom (fromAsset e) = [] ↔ _
        rw [hentries, List.append_eq_nil_iff]
        by_cases he : d = e <;> simp [he, Unposted, Finance.Db.entriesFrom]
  · next res hrun =>
    exact absurd rfl (Finance.postJournalHandler_answered hrun)
  · cases h

/-- A request with the contexts that both services handle it in. -/
structure DepreciationRequest where
  ctx : RequestCtx
  link : FinanceLink
  id : String
  request : DepreciateAssetRequest

def DepreciationRequest.body (r : DepreciationRequest) : Call DepreciateAssetResponse :=
  depreciateAsset r.ctx r.link r.id r.request

def DepreciationRequest.charge (r : DepreciationRequest) (db : Db) : Option (Uuid × Int) := do
  let assetId ← (parsePublicId .fixedAsset r.id).toOption
  let asOf ← (parseAsOf r.ctx r.request.asOfDate).toOption
  let row ← db.assets.find? assetId
  let acquiredAt ← row.acquiredAt
  let dep ← (row.straightLine (monthsElapsed (row.lastDepreciatedAt.getD acquiredAt) asOf)).toOption
  if 0 < dep then some (assetId, dep) else none

omit [Formats] in
theorem run_inInventory {α : Type} (p : Tx α) (s : Services) :
    (inInventory p).run s = (p.run s.inventory).map fun r => (r.1, { s with inventory := r.2 }) := by
  unfold inInventory
  refine Prog.run_zoom ?_ ?_ ?_ p s <;> intros <;> rfl

omit [Formats] in
theorem run_inInventory_bind_ok {α β : Type} {p : Tx α} {f : α → Call β} {s : Services} {r : β × Services} :
    (inInventory p >>= f).run s = .ok r ↔
      ∃ a db, p.run s.inventory = .ok (a, db) ∧ (f a).run { s with inventory := db } = .ok r := by
  rw [Prog.run_bind, run_inInventory]
  cases p.run s.inventory with
  | error e => simp [Except.map, Except.bind]
  | ok x =>
    refine ⟨fun h => ⟨x.1, x.2, rfl, h⟩, fun ⟨a, db, hx, h⟩ => ?_⟩
    cases hx
    exact h

theorem run_postJournalLines_ok {link : FinanceLink} {req : JournalRequest} {s : Services}
    {r : String × Services} (h : (postJournalLines link req).run s = .ok r) :
    ∃ answer db, link.serve req s.finance = .ok (answer, db) ∧ r.2 = { s with finance := db } := by
  obtain ⟨answer, t, hcall, h⟩ := Prog.run_bind_ok.mp h
  obtain ⟨hanswer, ht⟩ := Prog.run_executeReturning_ok.mp hcall
  obtain ⟨-, hr⟩ := Prog.run_ofExcept_ok.mp h
  cases hserve : link.serve req s.finance with
  | error e =>
    rw [hserve] at hanswer
    cases hanswer
  | ok x =>
    rw [hserve] at ht
    exact ⟨x.1, x.2, rfl, hr.trans ht⟩

/-- After a charge: the asset has the expense, and the finance service answered its journal. -/
structure Charged (r : DepreciationRequest) (assetId : Uuid) (row : AssetRow) (asOf : Date) (dep : Int)
    (s t : Services) : Prop where
  assets : t.inventory.assets = s.inventory.assets.modify assetId
    (·.depreciated r.ctx (row.accumulatedDepreciationMinor + dep) asOf)
  served : ∃ answer, r.link.serve (depreciationJournal assetId row dep) s.finance = .ok (answer, t.finance)

omit [Formats] in
theorem run_answerDepreciated {assetId : Uuid} {dep newAccum : Int} {journal : String} {s : Db}
    {r : DepreciateAssetResponse × Db} (h : (answerDepreciated assetId dep newAccum journal).run s = .ok r) :
    r.2.assets = s.assets := by
  simp only [answerDepreciated, fetchAsset, bind_assoc, Prog.run_query_bind, Prog.run_okOr_bind_ok] at h
  obtain ⟨updated, -, h⟩ := h
  obtain ⟨-, h⟩ := Prog.run_execute_bind_ok.mp h
  cases h
  rfl

theorem run_chargeDepreciation {r : DepreciationRequest} {assetId : Uuid} {row : AssetRow} {asOf : Date}
    {dep : Int} {s : Services} {a : DepreciateAssetResponse × Services}
    (h : (chargeDepreciation r.ctx r.link assetId row asOf dep).run s = .ok a)
    (hsum : saturateI64 (row.accumulatedDepreciationMinor + dep) = row.accumulatedDepreciationMinor + dep) :
    Charged r assetId row asOf dep s a.2 := by
  obtain ⟨_, db, hupdate, h⟩ := run_inInventory_bind_ok.mp h
  obtain ⟨-, hdb⟩ := Prog.run_execute_ok.mp hupdate
  obtain ⟨journal, t, hpost, h⟩ := Prog.run_bind_ok.mp h
  obtain ⟨answer, finance, hserve, rfl⟩ := run_postJournalLines_ok hpost
  rw [run_inInventory] at h
  cases hanswer : (answerDepreciated assetId dep (saturateI64 (row.accumulatedDepreciationMinor + dep))
      journal).run db with
  | error e =>
    rw [hanswer] at h
    cases h
  | ok x =>
    rw [hanswer] at h
    cases h
    refine ⟨?_, answer, hserve⟩
    rw [← hsum]
    exact (run_answerDepreciated hanswer).trans (congrArg Db.assets (Prod.mk.inj hdb).2)

omit [Formats] in
theorem straightLine_of_le {row : AssetRow} {months : Int} (h : months ≤ 0) : row.straightLine months = .ok 0 :=
  if_pos (.inr h)

theorem run_body {r : DepreciationRequest} {s : Services} {a : DepreciateAssetResponse × Services}
    (h : r.body.run s = .ok a) :
    (r.charge s.inventory = none ∧ a.2 = s) ∨ ∃ assetId row asOf dep,
      r.charge s.inventory = some (assetId, dep) ∧ parsePublicId .fixedAsset r.id = .ok assetId ∧
        parseAsOf r.ctx r.request.asOfDate = .ok asOf ∧ s.inventory.assets.find? assetId = some row ∧
        row.accumulatedDepreciationMinor + dep ≤ row.depreciable ∧ 0 < dep ∧
        Charged r assetId row asOf dep s a.2 := by
  simp only [DepreciationRequest.body, depreciateAsset, Prog.run_ofExcept_bind_ok] at h
  obtain ⟨assetId, hid, -, -, asOf, hasOf, h⟩ := h
  obtain ⟨row, db, hfetch, h⟩ := run_inInventory_bind_ok.mp h
  simp only [fetchAsset, Prog.run_query_bind, Prog.run_okOr_ok] at hfetch
  obtain ⟨hrow, rfl⟩ := hfetch
  obtain ⟨acquiredAt, hacquired, h⟩ := Prog.run_okOr_bind_ok.mp h
  have hcharge : ∀ dep, row.straightLine (monthsElapsed (row.lastDepreciatedAt.getD acquiredAt) asOf) = .ok dep →
      r.charge s.inventory = if 0 < dep then some (assetId, dep) else none := by
    intro dep hdep
    simp [DepreciationRequest.charge, hid, hasOf, hrow, hacquired, hdep, Except.toOption]
  split_ifs at h with hmonths
  · cases h
    exact .inl ⟨hcharge 0 (straightLine_of_le hmonths), rfl⟩
  · obtain ⟨dep, hdep, h⟩ := Prog.run_ofExcept_bind_ok.mp h
    have hdep := Finance.mapError_ok.mp hdep
    split_ifs at h with hzero
    · cases h
      exact .inl ⟨(hcharge dep hdep).trans (if_neg (by omega)), rfl⟩
    · obtain ⟨hle, hsum⟩ := straightLine_ok hdep (not_le.mp hzero)
      exact .inr ⟨assetId, row, asOf, dep, (hcharge dep hdep).trans (if_pos (not_le.mp hzero)), hid, hasOf, hrow,
        hle, not_le.mp hzero, run_chargeDepreciation h hsum⟩

/-- The asset and the ledger agree, within what can be depreciated. -/
structure AgreesWithLedger (assetId : Uuid) (s : Services) : Prop where
  agrees : ∀ row, s.inventory.assets.find? assetId = some row →
    row.accumulatedDepreciationMinor = ledgerDepreciation s.finance assetId
  bounded : ∀ row, s.inventory.assets.find? assetId = some row →
    row.accumulatedDepreciationMinor ≤ row.depreciable

/-- A charge of the request against the asset finds no journal of it. -/
def ChargesUnposted (assetId : Uuid) (step : Services × DepreciationRequest) : Prop :=
  ∀ dep, step.2.charge step.1.inventory = some (assetId, dep) → Unposted step.1.finance assetId

/-- What a run keeps: the asset is in step with the ledger until a charge finds a journal, and ahead
of it from then on. -/
structure InStepUntil (assetId : Uuid) (missed : Prop) (s : Services) : Prop where
  linesBelong : s.finance.LinesBelong
  row : ∃ row, s.inventory.assets.find? assetId = some row ∧
    row.accumulatedDepreciationMinor ≤ row.depreciable ∧
    ((¬missed ∧ row.accumulatedDepreciationMinor = ledgerDepreciation s.finance assetId) ∨
      (missed ∧ ¬Unposted s.finance assetId ∧
        ledgerDepreciation s.finance assetId < row.accumulatedDepreciationMinor))

omit [Formats] in
theorem InStepUntil.agrees_iff {assetId : Uuid} {missed : Prop} {s : Services}
    (h : InStepUntil assetId missed s) : AgreesWithLedger assetId s ↔ ¬missed := by
  obtain ⟨row, hrow, hbound, hcase⟩ := h.row
  have hunique : ∀ row', s.inventory.assets.find? assetId = some row' → row' = row := fun row' h' =>
    Option.some.inj (h'.symm.trans hrow)
  constructor
  · intro hagrees
    have := hagrees.agrees row hrow
    rcases hcase with ⟨hno, -⟩ | ⟨-, -, hlt⟩
    · exact hno
    · omega
  · intro hno
    have heq := (hcase.resolve_right fun h => hno h.1).2
    constructor <;> intro row' h' <;> obtain rfl := hunique row' h'
    · exact heq
    · exact hbound

theorem InStepUntil.of_same {assetId : Uuid} {missed : Prop} {s t : Services} {r : DepreciationRequest}
    (h : InStepUntil assetId missed s) (hno : ∀ dep, r.charge s.inventory ≠ some (assetId, dep))
    (hfk : t.finance.LinesBelong)
    (hrow : t.inventory.assets.find? assetId = s.inventory.assets.find? assetId)
    (hledger : ledgerDepreciation t.finance assetId = ledgerDepreciation s.finance assetId)
    (hposted : Unposted t.finance assetId ↔ Unposted s.finance assetId) :
    InStepUntil assetId (missed ∨ ¬ChargesUnposted assetId (s, r)) t := by
  have hmissed : (missed ∨ ¬ChargesUnposted assetId (s, r)) ↔ missed :=
    or_iff_left (not_not.mpr fun dep hdep => absurd hdep (hno dep))
  refine ⟨hfk, ?_⟩
  rw [hrow, hledger, hposted, hmissed]
  exact h.row

theorem InStepUntil.step {assetId : Uuid} {missed : Prop} {s : Services} (h : InStepUntil assetId missed s)
    (hreads : RereadsUuids) {r : DepreciationRequest} {a : DepreciateAssetResponse × Services}
    (hrun : r.body.run s = .ok a) :
    InStepUntil assetId (missed ∨ ¬ChargesUnposted assetId (s, r)) a.2 := by
  rcases run_body hrun with ⟨hnone, hsame⟩ | ⟨charged, old, asOf, dep, hcharge, hid, -, hold, hle, hpos,
    hcharged⟩
  · refine h.of_same (fun dep hdep => ?_) (hsame ▸ h.linesBelong) (hsame ▸ rfl) (hsame ▸ rfl) (hsame ▸ Iff.rfl)
    cases hnone.symm.trans hdep
  obtain ⟨answer, hserve⟩ := hcharged.served
  obtain ⟨hfk, hledger⟩ := serve_depreciation hserve hreads (parsePublicId_uuid hid) h.linesBelong
  obtain ⟨hsum, hposted⟩ := hledger assetId
  by_cases hself : charged = assetId
  · subst hself
    obtain ⟨row, hrow, hbound, hcase⟩ := h.row
    obtain rfl : row = old := Option.some.inj (hrow.symm.trans hold)
    have hmeets : ChargesUnposted charged (s, r) ↔ Unposted s.finance charged :=
      ⟨fun hu => hu dep hcharge, fun hu _ _ => hu⟩
    refine ⟨hfk, row.depreciated r.ctx (row.accumulatedDepreciationMinor + dep) asOf, ?_, hle, ?_⟩
    · rw [hcharged.assets, Table.find?_modify_self, hrow]
      rfl
    · simp only [true_and] at hsum
      simp only [ne_eq, not_true_eq_false, and_false] at hposted
      simp only [hsum, hposted, hmeets, AssetRow.depreciated, not_false_eq_true, true_and]
      rcases hcase with ⟨hno, heq⟩ | ⟨hmissed, hun, hlt⟩
      · by_cases hu : Unposted s.finance charged
        · rw [if_pos hu]
          exact .inl ⟨fun hx => hx.elim hno (absurd hu), by omega⟩
        · rw [if_neg hu]
          exact .inr ⟨.inr hu, by omega⟩
      · rw [if_neg hun]
        exact .inr ⟨.inl hmissed, by omega⟩
  · simp only [hself, false_and, if_false, add_zero] at hsum
    refine h.of_same (fun dep' hdep => ?_) hfk ?_ hsum (hposted.trans (and_iff_left hself))
    · exact hself (Prod.mk.inj (Option.some.inj (hcharge.symm.trans hdep))).1
    · rw [hcharged.assets, Table.find?_modify_ne _ _ (Ne.symm hself)]

/-- In every run the asset agrees with its depreciation journals exactly as long as each charge
against it found none. -/
theorem depreciation_agrees {assetId : Uuid} {s t : Services} {steps : List (Services × DepreciationRequest)}
    (h : Runs DepreciationRequest.body s steps t) (hreads : RereadsUuids) (hfk : s.finance.LinesBelong)
    (hasset : (s.inventory.assets.find? assetId).isSome) (h0 : AgreesWithLedger assetId s) :
    AgreesWithLedger assetId t ↔ ∀ x ∈ steps, ChargesUnposted assetId x := by
  obtain ⟨row, hrow⟩ := Option.isSome_iff_exists.mp hasset
  suffices hrun : InStepUntil assetId (¬∀ x ∈ steps, ChargesUnposted assetId x) t by
    exact hrun.agrees_iff.trans not_not
  induction h with
  | nil =>
    refine ⟨hfk, row, hrow, h0.bounded row hrow, .inl ⟨?_, h0.agrees row hrow⟩⟩
    exact not_not.mpr fun x hx => absurd hx List.not_mem_nil
  | @step t u steps r a prior hr ih =>
    have hnext := ih.step hreads hr
    simpa only [List.forall_mem_append, List.forall_mem_singleton, not_and_or] using hnext

end

/-- One asset, and a finance service without entries. -/
def Services.oneMachine : Services where
  inventory :=
    { Db.empty with
      assets := Table.empty.insert 5
        { publicId := "fa_5"
          itemPublicId := none
          name := "Machine"
          assetTag := none
          status := .inStock
          acquisitionCostMinor := 3600
          currency := "USD"
          acquiredAt := some ⟨2024, 1, 15, by decide⟩
          usefulLifeMonths := 36
          salvageMinor := 0
          accumulatedDepreciationMinor := 0
          lastDepreciatedAt := none
          createdAt := 0
          updatedAt := 0
          version := 1 } }
  finance := .empty

def depreciateThrough [Formats] (n : Nat) (asOf : String) : DepreciationRequest where
  ctx := .nth n
  link := ⟨.nth n, fun _ => "409 Conflict"⟩
  id := (PublicId.mk .fixedAsset 5).asStr
  request := ⟨some asOf⟩

theorem agrees_oneMachine : AgreesWithLedger 5 Services.oneMachine := by
  constructor <;> intro row hrow <;> rcases Table.find?_insert_some hrow with h | ⟨-, rfl⟩
  · cases h
  · rfl
  · cases h
  · decide

theorem rereadsUuids_canonical : @RereadsUuids canonicalFormats := fun _ _ h => Finance.canonicalFormats_reads h

def Services.twoMachines : Services :=
  { Services.oneMachine with
    inventory :=
      { Services.oneMachine.inventory with
        assets := Services.oneMachine.inventory.assets.insert 6
          { publicId := "fa_6"
            itemPublicId := none
            name := "Press"
            assetTag := none
            status := .inStock
            acquisitionCostMinor := 7200
            currency := "USD"
            acquiredAt := some ⟨2024, 1, 15, by decide⟩
            usefulLifeMonths := 36
            salvageMinor := 0
            accumulatedDepreciationMinor := 0
            lastDepreciatedAt := none
            createdAt := 0
            updatedAt := 0
            version := 1 } } }

theorem agrees_twoMachines : AgreesWithLedger 5 Services.twoMachines :=
  ⟨agrees_oneMachine.agrees, agrees_oneMachine.bounded⟩

/-- Two months of one machine, three of another, and then nothing more of the first. -/
theorem depreciation_agrees_two_machines :
    letI := canonicalFormats
    ∃ steps t, Runs DepreciationRequest.body Services.twoMachines steps t ∧ steps.length = 3 ∧
      ledgerDepreciation t.finance 5 = 200 ∧ ledgerDepreciation t.finance 6 = 600 ∧ AgreesWithLedger 5 t := by
  let := canonicalFormats
  let unposted (x : Services × DepreciationRequest) : Bool :=
    (x.2.charge x.1.inventory).all fun c => c.1 ≠ 5 || decide (Unposted x.1.finance 5)
  obtain ⟨steps, t, hrun, hend⟩ := Runs.of_play DepreciationRequest.body
    [depreciateThrough 1 "2024-03-15",
      { depreciateThrough 2 "2024-04-15" with id := (PublicId.mk .fixedAsset 6).asStr },
      depreciateThrough 3 "2024-03-31"] Services.twoMachines
    (fun steps t => steps.length = 3 && ledgerDepreciation t.finance 5 = 200 &&
      ledgerDepreciation t.finance 6 = 600 && steps.all unposted) (by decide +kernel)
  simp only [Bool.and_eq_true, decide_eq_true_eq] at hend
  obtain ⟨⟨⟨hlength, hfirst⟩, hsecond⟩, hall⟩ := hend
  refine ⟨steps, t, hrun, hlength, hfirst, hsecond, (depreciation_agrees hrun rereadsUuids_canonical
    (fun _ hl => absurd hl List.not_mem_nil) (by decide) agrees_twoMachines).mpr fun x hx dep hdep => ?_⟩
  have hmeets := List.all_eq_true.mp hall x hx
  simp only [unposted, hdep, Option.all_some, ne_eq, not_true_eq_false, decide_false, Bool.false_or,
    decide_eq_true_eq] at hmeets
  exact hmeets

/-- A second run a month later adds 100 to the asset; the finance service answers with the first entry. -/
theorem depreciation_diverges :
    letI := canonicalFormats
    AgreesWithLedger 5 Services.oneMachine ∧ ∃ steps t,
      Runs DepreciationRequest.body Services.oneMachine steps t ∧
        (t.inventory.assets.find? 5).map (·.accumulatedDepreciationMinor) = some 300 ∧
        ledgerDepreciation t.finance 5 = 200 := by
  let := canonicalFormats
  obtain ⟨steps, t, hrun, hend⟩ := Runs.of_play DepreciationRequest.body
    [depreciateThrough 1 "2024-03-15", depreciateThrough 2 "2024-04-15"] Services.oneMachine
    (fun _ t => (t.inventory.assets.find? 5).map (·.accumulatedDepreciationMinor) = some 300 &&
      ledgerDepreciation t.finance 5 = 200) (by decide +kernel)
  simp only [Bool.and_eq_true, decide_eq_true_eq] at hend
  exact ⟨agrees_oneMachine, steps, t, hrun, hend⟩

end Noxara.Inventory
