import Noxara.PaymentSplit
import Noxara.VendorBillPayments
import Noxara.PaymentIdempotency
import Noxara.ReplayScopes
import Noxara.AllocationJoins
import Noxara.SettlementInterleaving
import Noxara.DraftTotals
import Noxara.InvoiceNumbering
import Noxara.JournalReversals
import Noxara.ApprovalModes
import Noxara.ProcessRefinement
import Noxara.ApprovalFinality
import Noxara.WorkflowFailures
import Noxara.WorkflowIdle
import Noxara.SimulationAgreement
import Noxara.WorkflowConcurrency
import Noxara.PublishedVersions
import Noxara.PostedOnce
import Noxara.DelegatedRights
import Noxara.ApiKeys
import Noxara.ActiveOwners
import Noxara.RefreshFamilies
import Noxara.OutboxDelivery
import Noxara.PayrollSafety
import Noxara.AuditTampering
import Noxara.AccessReview
import Noxara.WebhookPauses
import Noxara.PublishedContracts
import Noxara.LeadConversions
import Noxara.DealHistory
import Noxara.OwnerScopes
import Noxara.RegionRouting
import Noxara.KeyLifecycles
import Noxara.SalaryJournals
import Noxara.RequestConversions
import Noxara.ConsentedTokens
import Noxara.EntityStatements
import Noxara.BatchTotals
import Noxara.BankMatching
import Noxara.AmountGrammar
import Noxara.RecurringSchedules
import Noxara.TaxVersions
import Noxara.NotificationsOnce
import Noxara.DocumentPostings
import Noxara.MoneyAllocation
import Noxara.DepreciationRuns
import Noxara.StockValuation
import Noxara.RateLimiter
import Noxara.NetworkAllowlist
import Noxara.SsrfEmbeddings
import Noxara.WebhookSigning
import Noxara.TimeWindows
import Noxara.DecisionMonotonicity
import Noxara.AttendanceHours
import Noxara.UnpaidLeave
import Noxara.CustomerImports
import Noxara.AnalyticsDeliveries
import Noxara.CustomRecordRuns
import Noxara.ScriptLimits
import Noxara.LeaveRequestRuns
import Noxara.TimesheetRuns
