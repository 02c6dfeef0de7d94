import Mathlib.Data.List.Induction
import Mathlib.Data.List.Nodup
import Noxara.PublicIds

/-! Public ids as texts: what is printed parses back, and the texts that are printed as they were read. -/
namespace Noxara.Finance

def isLowerHexDigit (c : Char) : Bool := c.isDigit || ('a' ≤ c && c ≤ 'f')

/-- In either case. -/
def isHexDigit (c : Char) : Bool := isLowerHexDigit c.toLower

theorem hexDigit_spec : ∀ d < 16, isLowerHexDigit (hexDigit d) = true ∧ isHexDigit (hexDigit d) = true ∧
    (hexDigit d).toLower = hexDigit d ∧ hexValue [hexDigit d] = d := by decide

theorem exists_hexDigit {c : Char} (h : isLowerHexDigit c = true) : ∃ d < 16, c = hexDigit d := by
  have hc : Char.ofNat c.toNat = c := Char.ofNat_toNat c
  simp only [isLowerHexDigit, Bool.or_eq_true, Char.isDigit, Bool.and_eq_true, decide_eq_true_eq,
    Char.le_def, UInt32.le_iff_toNat_le] at h
  rcases h with ⟨hlow, hhigh⟩ | ⟨hlow, hhigh⟩
  · have hlow' : 48 ≤ c.toNat := hlow
    have hhigh' : c.toNat ≤ 57 := hhigh
    refine ⟨c.toNat - 48, by omega, ?_⟩
    rw [hexDigit, if_pos (by omega), Nat.add_sub_cancel' hlow', hc]
  · have hlow' : 97 ≤ c.toNat := hlow
    have hhigh' : c.toNat ≤ 102 := hhigh
    refine ⟨c.toNat - 87, by omega, ?_⟩
    rw [hexDigit, if_neg (by omega), Nat.add_sub_cancel' (by omega), hc]

theorem hexValue_concat (cs : List Char) (c : Char) : hexValue (cs ++ [c]) = 16 * hexValue cs + hexValue [c] := by
  simp [hexValue]

theorem hexDigits_succ (width n : Nat) :
    hexDigits (width + 1) n = hexDigits width (n / 16) ++ [hexDigit (n % 16)] := by
  unfold hexDigits
  rw [List.range_succ, List.map_append]
  congr 1
  · refine List.map_congr_left fun i hi => ?_
    have hwidth : width + 1 - 1 - i = width - 1 - i + 1 := by have := List.mem_range.mp hi; omega
    rw [hwidth, Nat.pow_succ', Nat.div_div_eq_div_mul]
  · simp

theorem length_hexDigits (width n : Nat) : (hexDigits width n).length = width := by
  simp [hexDigits]

theorem hexDigits_lower {width n : Nat} {c : Char} (h : c ∈ hexDigits width n) : isLowerHexDigit c = true := by
  obtain ⟨i, -, rfl⟩ := List.mem_map.mp h
  exact (hexDigit_spec _ (Nat.mod_lt _ (by decide))).1

theorem hexValue_hexDigits (width n : Nat) : hexValue (hexDigits width n) = n % 16 ^ width := by
  induction width generalizing n with
  | zero => simp [hexDigits, hexValue, Nat.mod_one]
  | succ width ih =>
    rw [hexDigits_succ, hexValue_concat, ih, (hexDigit_spec _ (Nat.mod_lt n (by decide))).2.2.2, Nat.pow_succ',
      Nat.mod_mul]
    omega

/-- The digits of a value, most significant first, are the ones it was read from. -/
theorem hexDigits_hexValue (ds : List Char) (h : ∀ c ∈ ds, isLowerHexDigit c = true) :
    hexDigits ds.length (hexValue ds) = ds := by
  induction ds using List.reverseRecOn with
  | nil => rfl
  | append_singleton ds c ih =>
    obtain ⟨d, hd, rfl⟩ := exists_hexDigit (h c (by simp))
    have hvalue := (hexDigit_spec d hd).2.2.2
    rw [List.length_append, List.length_singleton, hexDigits_succ, hexValue_concat, hvalue,
      show (16 * hexValue ds + d) / 16 = hexValue ds by omega, show (16 * hexValue ds + d) % 16 = d by omega,
      ih fun c hc => h c (by simp [hc])]

theorem hexValue_lt (ds : List Char) (h : ∀ c ∈ ds, isLowerHexDigit c = true) : hexValue ds < 16 ^ ds.length := by
  have hvalue := hexValue_hexDigits ds.length (hexValue ds)
  rw [hexDigits_hexValue ds h] at hvalue
  rw [hvalue]
  exact Nat.mod_lt _ (Nat.pow_pos (by decide))

namespace IdKind

/-- The arms of the lookup of a whole prefix. -/
def FROM_PREFIX : List (String × IdKind) :=
  [ ("org_", .org), ("usr_", .user), ("inv_", .invoice), ("cn_", .creditNote),
    ("payrun_", .payrollRun), ("payslip_", .payslip), ("pay_", .payment), ("exp_", .expense),
    ("dl_", .deal), ("cus_", .customer), ("con_", .contact), ("led_", .lead), ("qte_", .quote),
    ("pl_", .pipeline), ("stg_", .stage), ("prd_", .product), ("act_", .activity),
    ("imp_", .dataImport), ("prj_", .project), ("tsk_", .task), ("apr_", .approval),
    ("apl_", .approvalPolicy), ("apd_", .approvalDelegation), ("hel_", .hello), ("rol_", .role),
    ("tem_", .team), ("dep_", .department), ("ivt_", .invitation), ("mem_", .membership),
    ("emp_", .employee), ("ect_", .employmentContract), ("cmp_", .compensationComponent),
    ("edc_", .employeeDocument), ("has_", .hrAsset), ("htk_", .hrTask), ("sch_", .workSchedule),
    ("hol_", .holiday), ("att_", .attendanceRecord), ("lvt_", .leaveType), ("lvr_", .leaveRequest),
    ("lv_", .leaveLedgerEntry), ("earning_", .payrollEarningLine),
    ("deduction_", .payrollDeductionLine), ("pcomp_", .payrollComponent), ("acc_", .ledgerAccount),
    ("period_", .fiscalPeriod), ("bank_", .bankAccount), ("stmt_", .bankStatement),
    ("rec_", .bankReconciliation), ("pol_", .expensePolicy), ("card_", .cardTransaction),
    ("reimb_", .reimbursementBatch), ("wh_", .warehouse), ("item_", .inventoryItem),
    ("mv_", .stockMovement), ("sup_", .supplier), ("pr_", .purchaseRequest),
    ("prl_", .purchaseRequestLine), ("po_", .purchaseOrder), ("poln_", .purchaseOrderLine),
    ("grn_", .goodsReceipt), ("grl_", .goodsReceiptLine), ("ast_", .fixedAsset),
    ("asa_", .assetAssignment), ("mnt_", .maintenanceSchedule), ("vb_", .vendorBill),
    ("sso_", .ssoConfig), ("apk_", .apiKey), ("arv_", .accessReview), ("sec_", .orgSecret),
    ("wfd_", .workflowDefinition), ("wfv_", .workflowVersion), ("wfi_", .workflowInstance),
    ("met_", .analyticsMetric), ("rpt_", .analyticsReport), ("adb_", .analyticsDashboard),
    ("wdg_", .analyticsWidget), ("asch_", .analyticsSchedule), ("arun_", .analyticsRun),
    ("whk_", .webhookEndpoint), ("whd_", .webhookDelivery), ("app_", .marketplaceApp),
    ("ins_", .marketplaceInstall), ("oac_", .marketplaceOauthClient), ("mrv_", .marketplaceReview),
    ("atk_", .marketplaceAppToken), ("ord_", .salesOrder), ("orl_", .salesOrderLine),
    ("sct_", .salesContract), ("ter_", .territory), ("txr_", .taxRate), ("txg_", .taxGroup),
    ("txc_", .taxComponent), ("dnp_", .dunningProfile), ("ent_", .financeEntity),
    ("ict_", .intercompanyTxn), ("csr_", .consolidationRun), ("cmk_", .customerManagedKey),
    ("scm_", .scimToken), ("pig_", .permissionInheritGrant), ("pdg_", .permissionDelegation),
    ("exj_", .exportJob), ("loh_", .legalHold), ("tme_", .timeEntry), ("tms_", .timesheet),
    ("cap_", .capacityAllocation), ("mts_", .meetingSummary), ("ain_", .aiInsight),
    ("agp_", .agentPolicy), ("agrun_", .agentRun), ("aact_", .aiAction), ("tpp_", .promptPack),
    ("cent_", .customEntity), ("cusrec_", .customRecord), ("cview_", .customView),
    ("clay_", .customLayout), ("cscript_", .customScript), ("cpkg_", .customPackage),
    ("ipk_", .industryPackInstall)]

def fromPrefix (s : String) : Option IdKind := (FROM_PREFIX.find? fun x => x.1 = s).map (·.2)

theorem PREFIXES_spec : ∀ x ∈ PREFIXES, x.1 = x.2.idPrefix := by
  decide +kernel

theorem FROM_PREFIX_spec : ∀ x ∈ FROM_PREFIX, x.1 = x.2.idPrefix := by
  decide +kernel

theorem mem_table {table : List (String × IdKind)} {k : IdKind} (hspec : ∀ x ∈ table, x.1 = x.2.idPrefix)
    (hk : k ∈ table.map Prod.snd) : (k.idPrefix, k) ∈ table := by
  obtain ⟨x, hx, rfl⟩ := List.mem_map.mp hk
  have hentry : (x.2.idPrefix, x.2) = x := Prod.ext (hspec x hx).symm rfl
  rwa [hentry]

theorem mem_PREFIXES (k : IdKind) : (k.idPrefix, k) ∈ PREFIXES :=
  mem_table PREFIXES_spec (by cases k <;> decide)

theorem mem_FROM_PREFIX (k : IdKind) : (k.idPrefix, k) ∈ FROM_PREFIX :=
  mem_table FROM_PREFIX_spec (by cases k <;> decide)

theorem PREFIXES_nodup : (PREFIXES.map fun x => x.1.toList).Nodup := by
  -- two numbers are compared faster than two texts
  have hcodes : ((PREFIXES.map fun x => x.1.toList).map fun cs => cs.foldl (fun n c => 256 * n + c.toNat) 0).Nodup := by
    decide +kernel
  exact hcodes.of_map

theorem PREFIXES_ends : ∀ x ∈ PREFIXES, x.1.toList = x.1.toList.takeWhile (· ≠ '_') ++ ['_'] := by
  decide +kernel

/-- A prefix ends at its first underscore, so that none is the beginning of another. -/
theorem takeWhile_idPrefix (k : IdKind) (rest : List Char) :
    (k.idPrefix.toList ++ rest).takeWhile (· ≠ '_') ++ ['_'] = k.idPrefix.toList := by
  have hk := PREFIXES_ends _ k.mem_PREFIXES
  generalize k.idPrefix.toList = text at hk
  have hword : ∀ c ∈ text.takeWhile (· ≠ '_'), decide (c ≠ '_') = true :=
    List.all_eq_true.mp List.all_takeWhile
  generalize text.takeWhile (· ≠ '_') = word at hk hword
  subst hk
  rw [List.append_assoc, List.takeWhile_append_of_pos hword]
  simp

theorem idPrefix_unique {k k' : IdKind} {rest rest' : String} (h : k.idPrefix ++ rest = k'.idPrefix ++ rest') :
    k = k' ∧ rest = rest' := by
  have htexts : k.idPrefix.toList ++ rest.toList = k'.idPrefix.toList ++ rest'.toList := by
    rw [← String.toList_append, h, String.toList_append]
  have hpre : k.idPrefix.toList = k'.idPrefix.toList := by
    rw [← k.takeWhile_idPrefix rest.toList, htexts, takeWhile_idPrefix]
  have hk : k = k' :=
    congrArg Prod.snd (List.inj_on_of_nodup_map PREFIXES_nodup k.mem_PREFIXES k'.mem_PREFIXES hpre)
  rw [hpre] at htexts
  exact ⟨hk, String.toList_inj.mp (List.append_cancel_left htexts)⟩

theorem fromPrefix_eq_some {s : String} {k : IdKind} : fromPrefix s = some k ↔ s = k.idPrefix := by
  have hfound {x : String × IdKind} (h : (FROM_PREFIX.find? fun x => x.1 = s) = some x) : s = x.2.idPrefix := by
    have hx := List.find?_some h
    rw [← FROM_PREFIX_spec x (List.mem_of_find?_eq_some h), of_decide_eq_true hx]
  unfold fromPrefix
  cases h : FROM_PREFIX.find? fun x => x.1 = s with
  | none =>
    refine ⟨fun hnone => (by cases hnone), fun hs => ?_⟩
    have hmiss := List.find?_eq_none.mp h _ k.mem_FROM_PREFIX
    exact absurd hs.symm (by simpa using hmiss)
  | some x =>
    have hx := hfound h
    constructor
    · intro hk
      rw [← Option.some.inj hk, hx]
    · intro hs
      have hprefixes : x.2.idPrefix ++ "" = k.idPrefix ++ "" := by rw [← hx, hs]
      have hkinds : x.2 = k := (idPrefix_unique hprefixes).1
      rw [Option.map_some, hkinds]

/-- The first prefix that a text begins with is the only one. -/
theorem findSome?_PREFIXES {s rest : String} {k : IdKind} :
    (PREFIXES.findSome? fun x => (stripPrefix s x.1).map fun rest => (x.2, rest)) = some (k, rest) ↔
      s = k.idPrefix ++ rest := by
  have hfound {y : IdKind × String}
      (h : (PREFIXES.findSome? fun x => (stripPrefix s x.1).map fun rest => (x.2, rest)) = some y) :
      s = y.1.idPrefix ++ y.2 := by
    obtain ⟨x, hx, hy⟩ := List.exists_of_findSome?_eq_some h
    obtain ⟨rest, hrest, rfl⟩ := Option.map_eq_some_iff.mp hy
    rw [← PREFIXES_spec x hx, ← String.toList_inj, String.toList_append]
    exact stripPrefix_some hrest
  constructor
  · exact hfound
  · rintro rfl
    cases h : PREFIXES.findSome? fun x => (stripPrefix (k.idPrefix ++ rest) x.1).map fun rest => (x.2, rest) with
    | none =>
      have hmiss := List.findSome?_eq_none_iff.mp h _ k.mem_PREFIXES
      rw [stripPrefix_append] at hmiss
      cases hmiss
    | some y =>
      obtain ⟨hkind, hrest⟩ := idPrefix_unique (hfound h)
      rw [hkind, hrest]

end IdKind

theorem PublicId.fromStr_eq_ok [Formats] {s : String} {p : PublicId} :
    PublicId.fromStr s = .ok p ↔
      ∃ rest, s = p.kind.idPrefix ++ rest ∧ Formats.uuidParseStr rest = some p.uuid := by
  unfold PublicId.fromStr
  split_ifs with hempty
  · refine ⟨fun h => (by cases h), fun h => ?_⟩
    obtain ⟨rest, rfl, -⟩ := h
    have hpre := IdKind.takeWhile_idPrefix p.kind []
    simp only [String.isEmpty_iff, String.append_eq_empty_iff] at hempty
    rw [hempty.1] at hpre
    cases hpre
  · constructor
    · intro h
      split at h
      · next kind rest hfound =>
        cases huuid : Formats.uuidParseStr rest with
        | none => simp only [huuid] at h; cases h
        | some uuid =>
          simp only [huuid] at h
          cases h
          exact ⟨rest, IdKind.findSome?_PREFIXES.mp hfound, huuid⟩
      · cases h
    · rintro ⟨rest, hs, huuid⟩
      rw [IdKind.findSome?_PREFIXES.mpr hs]
      simp only [huuid]

def hyphenate (ds : List Char) : List Char :=
  ds.take 8 ++ '-' :: (ds.drop 8).take 4 ++ '-' :: (ds.drop 12).take 4 ++ '-' :: (ds.drop 16).take 4 ++
    '-' :: ds.drop 20

/-- Simple, hyphenated, braced and urn. -/
def spellings (ds : List Char) : List (List Char) :=
  [ds, hyphenate ds, '\x7b' :: (hyphenate ds ++ ['\x7d']), "urn:uuid:".toList ++ hyphenate ds]

def Spells (s : String) (u : Uuid) : Prop :=
  ∃ ds : List Char, ds.length = 32 ∧ (∀ c ∈ ds, isHexDigit c = true) ∧ s.toList ∈ spellings ds ∧
    u = hexValue (ds.map Char.toLower)

/-- The texts that the `uuid` crate documents: what it prints, and what it reads. -/
structure UuidCrate [Formats] : Prop where
  display_eq : ∀ u < 2 ^ 128, Formats.uuidDisplay u = hyphenated u
  parse_iff : ∀ s u, Formats.uuidParseStr s = some u ↔ Spells s u

/-- A hyphenated UUID in lower case. -/
def LowerHyphenated (s : String) : Prop :=
  ∃ ds : List Char, ds.length = 32 ∧ (∀ c ∈ ds, isLowerHexDigit c = true) ∧ s.toList = hyphenate ds

theorem toLower_of_lower {c : Char} (h : isLowerHexDigit c = true) : c.toLower = c := by
  obtain ⟨d, hd, rfl⟩ := exists_hexDigit h
  exact (hexDigit_spec d hd).2.2.1

theorem map_toLower {ds : List Char} (h : ∀ c ∈ ds, isLowerHexDigit c = true) : ds.map Char.toLower = ds :=
  (List.map_congr_left (g := id) fun c hc => toLower_of_lower (h c hc)).trans (List.map_id ds)

theorem toList_hyphenated (u : Uuid) : (hyphenated u).toList = hyphenate (hexDigits 32 u) :=
  String.toList_ofList

theorem spells_of_lower {s : String} {ds : List Char} (hlength : ds.length = 32)
    (hlower : ∀ c ∈ ds, isLowerHexDigit c = true) (hs : s.toList = hyphenate ds) : Spells s (hexValue ds) := by
  refine ⟨ds, hlength, fun c hc => ?_, ?_, by rw [map_toLower hlower]⟩
  · rw [isHexDigit, toLower_of_lower (hlower c hc)]
    exact hlower c hc
  · rw [hs]
    exact List.mem_cons_of_mem _ List.mem_cons_self

theorem spells_hyphenated {u : Uuid} (hu : u < 2 ^ 128) : Spells (hyphenated u) u := by
  have h := spells_of_lower (length_hexDigits 32 u) (fun c hc => hexDigits_lower hc) (toList_hyphenated u)
  rwa [hexValue_hexDigits, Nat.mod_eq_of_lt (by omega)] at h

theorem Spells.lt {s : String} {u : Uuid} (h : Spells s u) : u < 2 ^ 128 := by
  obtain ⟨ds, hlength, hhex, -, rfl⟩ := h
  have hlt : hexValue (ds.map Char.toLower) < 16 ^ (ds.map Char.toLower).length := by
    refine hexValue_lt _ fun c hc => ?_
    obtain ⟨d, hd, rfl⟩ := List.mem_map.mp hc
    exact hhex d hd
  rw [List.length_map, hlength] at hlt
  omega

theorem lowerHyphenated_hyphenated (u : Uuid) : LowerHyphenated (hyphenated u) :=
  ⟨hexDigits 32 u, length_hexDigits 32 u, fun _ hc => hexDigits_lower hc, toList_hyphenated u⟩

/-- A spelled value prints as it was read when it was read in lower case with hyphens. -/
theorem hyphenated_eq_iff [Formats] (hcrate : UuidCrate) {s : String} {u : Uuid}
    (h : Formats.uuidParseStr s = some u) : hyphenated u = s ↔ LowerHyphenated s := by
  constructor
  · rintro rfl
    exact lowerHyphenated_hyphenated u
  · rintro ⟨ds, hlength, hlower, hs⟩
    have hread := (hcrate.parse_iff s _).mpr (spells_of_lower hlength hlower hs)
    obtain rfl : u = hexValue ds := Option.some.inj (h.symm.trans hread)
    rw [← String.toList_inj, toList_hyphenated, hs, ← hlength, hexDigits_hexValue ds hlower]

/-- A known prefix and a UUID in lower case with hyphens. -/
def PublicId.Canonical (s : String) : Prop :=
  ∃ (kind : IdKind) (rest : String), s = kind.idPrefix ++ rest ∧ LowerHyphenated rest

theorem PublicId.fromStr_asStr [Formats] (hcrate : UuidCrate) (kind : IdKind) {u : Uuid} (hu : u < 2 ^ 128) :
    PublicId.fromStr (PublicId.mk kind u).asStr = .ok ⟨kind, u⟩ := by
  refine PublicId.fromStr_eq_ok.mpr ⟨Formats.uuidDisplay u, rfl, ?_⟩
  rw [hcrate.display_eq u hu]
  exact (hcrate.parse_iff _ u).mpr (spells_hyphenated hu)

theorem PublicId.asStr_eq_iff [Formats] (hcrate : UuidCrate) {s : String} {p : PublicId}
    (h : PublicId.fromStr s = .ok p) : p.asStr = s ↔ PublicId.Canonical s := by
  obtain ⟨rest, rfl, huuid⟩ := PublicId.fromStr_eq_ok.mp h
  have hprint : p.asStr = p.kind.idPrefix ++ hyphenated p.uuid := by
    rw [PublicId.asStr, hcrate.display_eq _ ((hcrate.parse_iff rest _).mp huuid).lt]
  rw [hprint]
  constructor
  · intro hs
    exact ⟨p.kind, rest, rfl, (hyphenated_eq_iff hcrate huuid).mp (IdKind.idPrefix_unique hs).2⟩
  · rintro ⟨kind, rest', hs, hlower⟩
    obtain ⟨-, rfl⟩ := IdKind.idPrefix_unique hs
    rw [(hyphenated_eq_iff hcrate huuid).mpr hlower]

/-- What is printed parses back, the tables of prefixes agree, and a text that is accepted is printed again
exactly when it is in lower case with hyphens. -/
theorem public_ids_print_and_parse [Formats] (hcrate : UuidCrate) :
    (∀ (kind : IdKind) (u : Uuid), u < 2 ^ 128 →
      PublicId.fromStr (PublicId.mk kind u).asStr = .ok ⟨kind, u⟩) ∧
    (∀ (kind : IdKind) (text : String), ((text, kind) ∈ IdKind.PREFIXES ↔ text = kind.idPrefix) ∧
      (IdKind.fromPrefix text = some kind ↔ text = kind.idPrefix)) ∧
    ∀ (s : String) (p : PublicId), PublicId.fromStr s = .ok p → (p.asStr = s ↔ PublicId.Canonical s) := by
  refine ⟨fun kind u hu => PublicId.fromStr_asStr hcrate kind hu,
    fun kind text => ⟨?_, IdKind.fromPrefix_eq_some⟩,
    fun s p h => PublicId.asStr_eq_iff hcrate h⟩
  constructor
  · exact IdKind.PREFIXES_spec _
  · rintro rfl
    exact kind.mem_PREFIXES

def uuidDigits (cs : List Char) : List Char :=
  (if "urn:uuid:".toList.isPrefixOf cs then cs.drop 9 else cs).filter fun c => c ≠ '-' ∧ c ≠ '\x7b' ∧
    c ≠ '\x7d'

def parseUuid (s : String) : Option Uuid :=
  let ds := uuidDigits s.toList
  if ds.length = 32 ∧ ds.all isHexDigit = true ∧ s.toList ∈ spellings ds then
    some (hexValue (ds.map Char.toLower))
  else none

@[reducible] def crateFormats : Formats where
  uuidParseStr := parseUuid
  uuidDisplay := hyphenated
  dateParseFromStr := parseIsoDate
  parseFromRfc3339 _ := none

theorem filter_hyphenate (q : Char → Bool) (hdash : q '-' = false) (ds : List Char) :
    (hyphenate ds).filter q = ds.filter q := by
  have htail : ds.take 8 ++ ((ds.drop 8).take 4 ++ ((ds.drop 12).take 4 ++ ((ds.drop 16).take 4 ++ ds.drop 20))) =
      ds := by
    rw [show ds.drop 20 = (ds.drop 16).drop 4 by rw [List.drop_drop], List.take_append_drop,
      show ds.drop 16 = (ds.drop 12).drop 4 by rw [List.drop_drop], List.take_append_drop,
      show ds.drop 12 = (ds.drop 8).drop 4 by rw [List.drop_drop], List.take_append_drop, List.take_append_drop]
  have hparts := congrArg (List.filter q) htail
  rw [← hparts]
  simp [hyphenate, List.filter_append, hdash]

theorem uuidDigits_spelling {ds cs : List Char} (hlength : ds.length = 32) (hhex : ∀ c ∈ ds, isHexDigit c = true)
    (hcs : cs ∈ spellings ds) : uuidDigits cs = ds := by
  have hfilter : ds.filter (fun c => c ≠ '-' ∧ c ≠ '\x7b' ∧ c ≠ '\x7d') = ds := by
    refine List.filter_eq_self.mpr fun c hc => decide_eq_true ⟨?_, ?_, ?_⟩ <;>
      exact fun h => absurd (h ▸ hhex c hc) (by decide)
  have hhyphenated := (filter_hyphenate _ (by decide) ds).trans hfilter
  obtain ⟨a, tail, rfl⟩ := List.exists_cons_of_length_pos (hlength ▸ (by decide : 0 < 32))
  have hfirst : 'u' ≠ a := fun h => absurd (h ▸ hhex a List.mem_cons_self) (by decide)
  simp only [spellings, List.mem_cons, List.not_mem_nil, or_false] at hcs
  -- only the last form begins as a urn does
  rcases hcs with rfl | rfl | rfl | rfl
  · rw [uuidDigits, if_neg (by simp [hfirst]), hfilter]
  · rw [uuidDigits, if_neg (by simp [hyphenate, hfirst]), hhyphenated]
  · rw [uuidDigits, if_neg (by simp), List.filter_cons, List.filter_append, hhyphenated]
    simp
  · rw [uuidDigits, if_pos (by simp)]
    exact hhyphenated

theorem uuidCrate_crateFormats :
    letI := crateFormats
    UuidCrate := by
  let := crateFormats
  refine ⟨fun _ _ => rfl, fun s u => ?_⟩
  change parseUuid s = some u ↔ Spells s u
  simp only [parseUuid]
  constructor
  · intro h
    split_ifs at h with hs
    exact ⟨_, hs.1, List.all_eq_true.mp hs.2.1, hs.2.2, (Option.some.inj h).symm⟩
  · rintro ⟨ds, hlength, hhex, hs, rfl⟩
    rw [uuidDigits_spelling hlength hhex hs, if_pos ⟨hlength, List.all_eq_true.mpr hhex, hs⟩]

def upperCaseId : String := "org_0190A0B1-C2D3-7E4F-8A9B-0C1D2E3F4A5B"

theorem fromStr_upperCaseId :
    letI := crateFormats
    PublicId.fromStr upperCaseId = .ok ⟨.org, 0x0190A0B1C2D37E4F8A9B0C1D2E3F4A5B⟩ := by
  decide +kernel

theorem asStr_upperCaseId :
    letI := crateFormats
    (PublicId.mk .org 0x0190A0B1C2D37E4F8A9B0C1D2E3F4A5B).asStr = "org_0190a0b1-c2d3-7e4f-8a9b-0c1d2e3f4a5b" := by
  decide

/-- An identifier in upper case is accepted, and printed in lower case. -/
theorem public_id_in_upper_case :
    letI := crateFormats
    UuidCrate ∧ ¬∀ (s : String) (p : PublicId), PublicId.fromStr s = .ok p → p.asStr = s := by
  let := crateFormats
  refine ⟨uuidCrate_crateFormats, fun h => ?_⟩
  have hprinted := h _ _ fromStr_upperCaseId
  rw [asStr_upperCaseId] at hprinted
  exact absurd hprinted (by decide)

/-- With the crate's own reading. -/
theorem public_ids_of_crate :
    letI := crateFormats
    PublicId.fromStr (PublicId.mk .payrollRun 7).asStr = .ok ⟨.payrollRun, 7⟩ ∧
      IdKind.fromPrefix "pay_" = some .payment ∧ ¬PublicId.Canonical upperCaseId := by
  let := crateFormats
  obtain ⟨hparse, htables, hprint⟩ := public_ids_print_and_parse uuidCrate_crateFormats
  refine ⟨hparse .payrollRun 7 (by decide), (htables .payment "pay_").2.mpr rfl, fun hcanonical => ?_⟩
  have hprinted := (hprint _ _ fromStr_upperCaseId).mpr hcanonical
  rw [asStr_upperCaseId] at hprinted
  exact absurd hprinted (by decide)

end Noxara.Finance
