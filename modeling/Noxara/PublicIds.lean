import Mathlib.Algebra.Group.Nat.Defs
import Noxara.CalendarDate

/-! Texts the requests carry: identifiers, dates and instants. Public identifiers are a kind's
prefix followed by a UUID. -/
namespace Noxara.Finance

abbrev Uuid := Nat

/-- Instants, in any unit. -/
abbrev Timestamp := Int

/-- The text formats of the `uuid` and `chrono` crates. -/
class Formats where
  uuidParseStr : String → Option Uuid
  uuidDisplay : Uuid → String
  dateParseFromStr : String → Option Date
  parseFromRfc3339 : String → Option Timestamp

def isWhiteSpace (c : Char) : Bool :=
  (9 ≤ c.toNat && c.toNat ≤ 13) || (0x2000 ≤ c.toNat && c.toNat ≤ 0x200A) ||
    [0x20, 0x85, 0xA0, 0x1680, 0x2028, 0x2029, 0x202F, 0x205F, 0x3000].contains c.toNat

def trim (s : String) : String :=
  String.ofList ((s.toList.dropWhile isWhiteSpace).reverse.dropWhile isWhiteSpace).reverse

def stripPrefix (s pre : String) : Option String :=
  if pre.toList.isPrefixOf s.toList then some (String.ofList (s.toList.drop pre.toList.length))
  else none

theorem stripPrefix_some {s pre rest : String} (h : stripPrefix s pre = some rest) :
    s.toList = pre.toList ++ rest.toList := by
  unfold stripPrefix at h
  split_ifs at h with hpre
  cases h
  rw [String.toList_ofList]
  exact (List.prefix_iff_eq_append.mp (List.isPrefixOf_iff_prefix.mp hpre)).symm

theorem stripPrefix_append (pre s : String) : stripPrefix (pre ++ s) pre = some s := by
  unfold stripPrefix
  rw [String.toList_append, if_pos (List.isPrefixOf_iff_prefix.mpr (List.prefix_append ..)), List.drop_left,
    String.ofList_toList]

inductive IdKind
  | org | user | invoice | creditNote | payment | expense | deal | customer | contact | lead
  | quote | pipeline | stage | product | activity | dataImport | project | task | approval
  | approvalPolicy | approvalDelegation | hello | role | team | department | invitation
  | membership | employee | employmentContract | compensationComponent | employeeDocument
  | hrAsset | hrTask | workSchedule | holiday | attendanceRecord | leaveType | leaveRequest
  | leaveLedgerEntry | payrollRun | payslip | payrollEarningLine | payrollDeductionLine
  | payrollComponent | ledgerAccount | fiscalPeriod | bankAccount | bankStatement
  | bankReconciliation | expensePolicy | cardTransaction | reimbursementBatch | warehouse
  | inventoryItem | stockMovement | supplier | purchaseRequest | purchaseRequestLine
  | purchaseOrder | purchaseOrderLine | goodsReceipt | goodsReceiptLine | fixedAsset
  | assetAssignment | maintenanceSchedule | vendorBill | ssoConfig | apiKey | accessReview
  | orgSecret | workflowDefinition | workflowVersion | workflowInstance | analyticsMetric
  | analyticsReport | analyticsDashboard | analyticsWidget | analyticsSchedule | analyticsRun
  | webhookEndpoint | webhookDelivery | marketplaceApp | marketplaceInstall
  | marketplaceOauthClient | marketplaceReview | marketplaceAppToken | salesOrder
  | salesOrderLine | salesContract | territory | taxRate | taxGroup | taxComponent
  | dunningProfile | financeEntity | intercompanyTxn | consolidationRun | customerManagedKey
  | scimToken | permissionInheritGrant | permissionDelegation | exportJob | legalHold | timeEntry
  | timesheet | capacityAllocation | meetingSummary | aiInsight | agentPolicy | agentRun
  | aiAction | promptPack | customEntity | customRecord | customView | customLayout
  | customScript | customPackage | industryPackInstall
  deriving DecidableEq

namespace IdKind

/-- A kind's debug name and its prefix. -/
def spec : IdKind → String × String
  | .org => ("Org", "org_") | .user => ("User", "usr_") | .invoice => ("Invoice", "inv_")
  | .creditNote => ("CreditNote", "cn_") | .payment => ("Payment", "pay_")
  | .expense => ("Expense", "exp_") | .deal => ("Deal", "dl_")
  | .customer => ("Customer", "cus_") | .contact => ("Contact", "con_")
  | .lead => ("Lead", "led_") | .quote => ("Quote", "qte_") | .pipeline => ("Pipeline", "pl_")
  | .stage => ("Stage", "stg_") | .product => ("Product", "prd_")
  | .activity => ("Activity", "act_") | .dataImport => ("Import", "imp_")
  | .project => ("Project", "prj_") | .task => ("Task", "tsk_")
  | .approval => ("Approval", "apr_") | .approvalPolicy => ("ApprovalPolicy", "apl_")
  | .approvalDelegation => ("ApprovalDelegation", "apd_") | .hello => ("Hello", "hel_")
  | .role => ("Role", "rol_") | .team => ("Team", "tem_") | .department => ("Department", "dep_")
  | .invitation => ("Invitation", "ivt_") | .membership => ("Membership", "mem_")
  | .employee => ("Employee", "emp_") | .employmentContract => ("EmploymentContract", "ect_")
  | .compensationComponent => ("CompensationComponent", "cmp_")
  | .employeeDocument => ("EmployeeDocument", "edc_") | .hrAsset => ("HrAsset", "has_")
  | .hrTask => ("HrTask", "htk_") | .workSchedule => ("WorkSchedule", "sch_")
  | .holiday => ("Holiday", "hol_") | .attendanceRecord => ("AttendanceRecord", "att_")
  | .leaveType => ("LeaveType", "lvt_") | .leaveRequest => ("LeaveRequest", "lvr_")
  | .leaveLedgerEntry => ("LeaveLedgerEntry", "lv_") | .payrollRun => ("PayrollRun", "payrun_")
  | .payslip => ("Payslip", "payslip_")
  | .payrollEarningLine => ("PayrollEarningLine", "earning_")
  | .payrollDeductionLine => ("PayrollDeductionLine", "deduction_")
  | .payrollComponent => ("PayrollComponent", "pcomp_")
  | .ledgerAccount => ("LedgerAccount", "acc_") | .fiscalPeriod => ("FiscalPeriod", "period_")
  | .bankAccount => ("BankAccount", "bank_") | .bankStatement => ("BankStatement", "stmt_")
  | .bankReconciliation => ("BankReconciliation", "rec_")
  | .expensePolicy => ("ExpensePolicy", "pol_")
  | .cardTransaction => ("CardTransaction", "card_")
  | .reimbursementBatch => ("ReimbursementBatch", "reimb_") | .warehouse => ("Warehouse", "wh_")
  | .inventoryItem => ("InventoryItem", "item_") | .stockMovement => ("StockMovement", "mv_")
  | .supplier => ("Supplier", "sup_") | .purchaseRequest => ("PurchaseRequest", "pr_")
  | .purchaseRequestLine => ("PurchaseRequestLine", "prl_")
  | .purchaseOrder => ("PurchaseOrder", "po_")
  | .purchaseOrderLine => ("PurchaseOrderLine", "poln_")
  | .goodsReceipt => ("GoodsReceipt", "grn_") | .goodsReceiptLine => ("GoodsReceiptLine", "grl_")
  | .fixedAsset => ("FixedAsset", "ast_") | .assetAssignment => ("AssetAssignment", "asa_")
  | .maintenanceSchedule => ("MaintenanceSchedule", "mnt_")
  | .vendorBill => ("VendorBill", "vb_") | .ssoConfig => ("SsoConfig", "sso_")
  | .apiKey => ("ApiKey", "apk_") | .accessReview => ("AccessReview", "arv_")
  | .orgSecret => ("OrgSecret", "sec_") | .workflowDefinition => ("WorkflowDefinition", "wfd_")
  | .workflowVersion => ("WorkflowVersion", "wfv_")
  | .workflowInstance => ("WorkflowInstance", "wfi_")
  | .analyticsMetric => ("AnalyticsMetric", "met_")
  | .analyticsReport => ("AnalyticsReport", "rpt_")
  | .analyticsDashboard => ("AnalyticsDashboard", "adb_")
  | .analyticsWidget => ("AnalyticsWidget", "wdg_")
  | .analyticsSchedule => ("AnalyticsSchedule", "asch_")
  | .analyticsRun => ("AnalyticsRun", "arun_") | .webhookEndpoint => ("WebhookEndpoint", "whk_")
  | .webhookDelivery => ("WebhookDelivery", "whd_")
  | .marketplaceApp => ("MarketplaceApp", "app_")
  | .marketplaceInstall => ("MarketplaceInstall", "ins_")
  | .marketplaceOauthClient => ("MarketplaceOauthClient", "oac_")
  | .marketplaceReview => ("MarketplaceReview", "mrv_")
  | .marketplaceAppToken => ("MarketplaceAppToken", "atk_")
  | .salesOrder => ("SalesOrder", "ord_") | .salesOrderLine => ("SalesOrderLine", "orl_")
  | .salesContract => ("SalesContract", "sct_") | .territory => ("Territory", "ter_")
  | .taxRate => ("TaxRate", "txr_") | .taxGroup => ("TaxGroup", "txg_")
  | .taxComponent => ("TaxComponent", "txc_") | .dunningProfile => ("DunningProfile", "dnp_")
  | .financeEntity => ("FinanceEntity", "ent_") | .intercompanyTxn => ("IntercompanyTxn", "ict_")
  | .consolidationRun => ("ConsolidationRun", "csr_")
  | .customerManagedKey => ("CustomerManagedKey", "cmk_") | .scimToken => ("ScimToken", "scm_")
  | .permissionInheritGrant => ("PermissionInheritGrant", "pig_")
  | .permissionDelegation => ("PermissionDelegation", "pdg_")
  | .exportJob => ("ExportJob", "exj_") | .legalHold => ("LegalHold", "loh_")
  | .timeEntry => ("TimeEntry", "tme_") | .timesheet => ("Timesheet", "tms_")
  | .capacityAllocation => ("CapacityAllocation", "cap_")
  | .meetingSummary => ("MeetingSummary", "mts_") | .aiInsight => ("AiInsight", "ain_")
  | .agentPolicy => ("AgentPolicy", "agp_") | .agentRun => ("AgentRun", "agrun_")
  | .aiAction => ("AiAction", "aact_") | .promptPack => ("PromptPack", "tpp_")
  | .customEntity => ("CustomEntity", "cent_") | .customRecord => ("CustomRecord", "cusrec_")
  | .customView => ("CustomView", "cview_") | .customLayout => ("CustomLayout", "clay_")
  | .customScript => ("CustomScript", "cscript_") | .customPackage => ("CustomPackage", "cpkg_")
  | .industryPackInstall => ("IndustryPackInstall", "ipk_")

def idPrefix (k : IdKind) : String := k.spec.2

/-- The prefixes in the order in which a text is compared with them. -/
def PREFIXES : List (String × IdKind) :=
  [ ("org_", .org), ("usr_", .user), ("inv_", .invoice), ("payrun_", .payrollRun),
    ("payslip_", .payslip), ("pay_", .payment), ("exp_", .expense), ("cus_", .customer),
    ("con_", .contact), ("led_", .lead), ("qte_", .quote), ("prd_", .product), ("act_", .activity),
    ("imp_", .dataImport), ("prj_", .project), ("tsk_", .task), ("tme_", .timeEntry),
    ("tms_", .timesheet), ("cap_", .capacityAllocation), ("apr_", .approval),
    ("apl_", .approvalPolicy), ("apd_", .approvalDelegation), ("stg_", .stage), ("hel_", .hello),
    ("rol_", .role), ("tem_", .team), ("dep_", .department), ("ivt_", .invitation),
    ("mem_", .membership), ("emp_", .employee), ("ect_", .employmentContract),
    ("cmp_", .compensationComponent), ("edc_", .employeeDocument), ("has_", .hrAsset),
    ("htk_", .hrTask), ("sch_", .workSchedule), ("hol_", .holiday), ("att_", .attendanceRecord),
    ("lvt_", .leaveType), ("lvr_", .leaveRequest), ("lv_", .leaveLedgerEntry),
    ("earning_", .payrollEarningLine), ("deduction_", .payrollDeductionLine),
    ("pcomp_", .payrollComponent), ("period_", .fiscalPeriod), ("acc_", .ledgerAccount),
    ("bank_", .bankAccount), ("stmt_", .bankStatement), ("rec_", .bankReconciliation),
    ("pol_", .expensePolicy), ("card_", .cardTransaction), ("reimb_", .reimbursementBatch),
    ("prl_", .purchaseRequestLine), ("poln_", .purchaseOrderLine), ("grl_", .goodsReceiptLine),
    ("grn_", .goodsReceipt), ("asa_", .assetAssignment), ("mnt_", .maintenanceSchedule),
    ("item_", .inventoryItem), ("wh_", .warehouse), ("mv_", .stockMovement), ("sup_", .supplier),
    ("pr_", .purchaseRequest), ("po_", .purchaseOrder), ("ast_", .fixedAsset),
    ("vb_", .vendorBill), ("pl_", .pipeline), ("dl_", .deal), ("cn_", .creditNote),
    ("sso_", .ssoConfig), ("apk_", .apiKey), ("arv_", .accessReview), ("sec_", .orgSecret),
    ("asch_", .analyticsSchedule), ("arun_", .analyticsRun), ("wfd_", .workflowDefinition),
    ("wfv_", .workflowVersion), ("wfi_", .workflowInstance), ("met_", .analyticsMetric),
    ("rpt_", .analyticsReport), ("adb_", .analyticsDashboard), ("wdg_", .analyticsWidget),
    ("whk_", .webhookEndpoint), ("whd_", .webhookDelivery), ("app_", .marketplaceApp),
    ("ins_", .marketplaceInstall), ("oac_", .marketplaceOauthClient), ("mrv_", .marketplaceReview),
    ("atk_", .marketplaceAppToken), ("ord_", .salesOrder), ("orl_", .salesOrderLine),
    ("sct_", .salesContract), ("ter_", .territory), ("txr_", .taxRate), ("txg_", .taxGroup),
    ("txc_", .taxComponent), ("dnp_", .dunningProfile), ("ent_", .financeEntity),
    ("ict_", .intercompanyTxn), ("csr_", .consolidationRun), ("cmk_", .customerManagedKey),
    ("scm_", .scimToken), ("pig_", .permissionInheritGrant), ("pdg_", .permissionDelegation),
    ("exj_", .exportJob), ("loh_", .legalHold), ("agrun_", .agentRun), ("agp_", .agentPolicy),
    ("aact_", .aiAction), ("tpp_", .promptPack), ("mts_", .meetingSummary), ("ain_", .aiInsight),
    ("cusrec_", .customRecord), ("cscript_", .customScript), ("cent_", .customEntity),
    ("cview_", .customView), ("clay_", .customLayout), ("cpkg_", .customPackage),
    ("ipk_", .industryPackInstall)]

end IdKind

structure PublicId where
  kind : IdKind
  uuid : Uuid
  deriving DecidableEq

inductive IdError
  | invalidPrefix | invalidUuid | empty
  deriving DecidableEq

section
variable [Formats]

def PublicId.asStr (p : PublicId) : String := p.kind.idPrefix ++ Formats.uuidDisplay p.uuid

def PublicId.fromStr (s : String) : Except IdError PublicId :=
  if s.isEmpty then .error .empty
  else
    match IdKind.PREFIXES.findSome? fun x => (stripPrefix s x.1).map fun rest => (x.2, rest) with
    | some (kind, rest) =>
      match Formats.uuidParseStr rest with
      | some uuid => .ok ⟨kind, uuid⟩
      | none => .error .invalidUuid
    | none => .error .invalidPrefix

end

def hexDigit (n : Nat) : Char := Char.ofNat (if n < 10 then 48 + n else 87 + n)

def hexDigits (width n : Nat) : List Char :=
  (List.range width).map fun i => hexDigit (n / 16 ^ (width - 1 - i) % 16)

def hexValue (cs : List Char) : Nat :=
  cs.foldl (fun n c => 16 * n + if c.isDigit then c.toNat - 48 else c.toNat - 87) 0

def hyphenated (n : Nat) : String :=
  let ds := hexDigits 32 n
  String.ofList (ds.take 8 ++ '-' :: (ds.drop 8).take 4 ++ '-' :: (ds.drop 12).take 4 ++
    '-' :: (ds.drop 16).take 4 ++ '-' :: ds.drop 20)

def decimalValue (cs : List Char) : Option Nat :=
  if cs.all Char.isDigit then some (cs.foldl (fun n c => 10 * n + (c.toNat - 48)) 0) else none

/-- `YYYY-MM-DD`, of the proleptic Gregorian calendar. -/
def parseIsoDate (s : String) : Option Date :=
  match s.toList with
  | [a, b, c, d, '-', e, f, '-', g, h] => do
    let year ← decimalValue [a, b, c, d]
    let month ← decimalValue [e, f]
    let day ← decimalValue [g, h]
    if hv : 1 ≤ month ∧ month ≤ 12 ∧ 1 ≤ day ∧ day ≤ daysInMonth year month then
      some ⟨year, month, day, hv⟩
    else none
  | _ => none

/-- The forms the two crates write themselves: hyphenated identifiers and ISO dates. -/
@[reducible] def canonicalFormats : Formats where
  uuidParseStr s :=
    let n := hexValue (s.toList.filter (· ≠ '-'))
    if hyphenated n = s then some n else none
  uuidDisplay := hyphenated
  dateParseFromStr := parseIsoDate
  parseFromRfc3339 _ := none

theorem trim_eq_self {s : String} (h : ∀ c ∈ s.toList, isWhiteSpace c = false) : trim s = s := by
  have hdrop : ∀ cs : List Char, (∀ c ∈ cs, isWhiteSpace c = false) → cs.dropWhile isWhiteSpace = cs := by
    intro cs hcs
    cases cs with
    | nil => rfl
    | cons c cs => rw [List.dropWhile_cons, hcs c List.mem_cons_self]; rfl
  rw [trim, hdrop _ h, hdrop _ fun c hc => h c (List.mem_reverse.mp hc), List.reverse_reverse,
    String.ofList_toList]

theorem isWhiteSpace_of_mem_hexDigits {width n : Nat} {c : Char} (h : c ∈ hexDigits width n) :
    isWhiteSpace c = false := by
  have hdigit : ∀ d < 16, isWhiteSpace (hexDigit d) = false := by decide
  obtain ⟨i, -, rfl⟩ := List.mem_map.mp h
  exact hdigit _ (Nat.mod_lt _ (by decide))

theorem trim_hyphenated (n : Nat) : trim (hyphenated n) = hyphenated n := by
  refine trim_eq_self fun c hc => ?_
  unfold hyphenated at hc
  generalize hds : hexDigits 32 n = ds at hc
  have hdigit : ∀ c ∈ ds, isWhiteSpace c = false := fun c hc => isWhiteSpace_of_mem_hexDigits (hds ▸ hc)
  simp only [String.toList_ofList, List.mem_append, List.mem_cons, or_assoc] at hc
  rcases hc with h | rfl | h | rfl | h | rfl | h | rfl | h
  · exact hdigit c (List.mem_of_mem_take h)
  · rfl
  · exact hdigit c (List.mem_of_mem_drop (List.mem_of_mem_take h))
  · rfl
  · exact hdigit c (List.mem_of_mem_drop (List.mem_of_mem_take h))
  · rfl
  · exact hdigit c (List.mem_of_mem_drop (List.mem_of_mem_take h))
  · rfl
  · exact hdigit c (List.mem_of_mem_drop h)

/-- A text that is read as an identifier is the one that is written for it. -/
theorem canonicalFormats_reads {s : String} {u : Uuid}
    (h : canonicalFormats.uuidParseStr s = some u) :
    canonicalFormats.uuidParseStr (trim (canonicalFormats.uuidDisplay u)) = some u := by
  have hread := h
  change (if hyphenated _ = s then some _ else none) = some u at hread
  split_ifs at hread with hs
  obtain rfl := Option.some.inj hread
  have htext : trim (hyphenated (hexValue (s.toList.filter (· ≠ '-')))) = s := (trim_hyphenated _).trans hs
  change canonicalFormats.uuidParseStr (trim (hyphenated _)) = _
  rw [htext]
  exact h

end Noxara.Finance
