import Noxara.JsonValues

/-! The permission catalogue and what each system role allows by default. -/
namespace Noxara.Authz

/-- `{context}.{resource}.{action}`. -/
abbrev PermissionId := String

/-- The ids of the catalogue; the rest of an entry describes it. -/
def permissionCatalogue : List PermissionId :=
  ["workspace.dashboard.read", "workspace.org.create", "workspace.org.read",
   "workspace.org.update_settings", "workspace.member.read", "workspace.member.invite",
   "workspace.member.suspend", "workspace.member.revoke", "workspace.role.read",
   "workspace.role.manage", "workspace.role.assign", "workspace.team.read",
   "workspace.team.manage", "workspace.department.read", "workspace.department.manage",
   "sales.customer.read", "sales.customer.create", "sales.customer.update",
   "sales.customer.delete", "sales.contact.read", "sales.contact.create", "sales.contact.update",
   "sales.lead.read", "sales.lead.create", "sales.lead.update", "sales.lead.convert",
   "sales.pipeline.read", "sales.pipeline.manage", "sales.deal.read", "sales.deal.create",
   "sales.deal.update", "sales.deal.win", "sales.deal.lose", "sales.quote.read",
   "sales.quote.create", "sales.quote.update", "sales.quote.accept", "sales.product.read",
   "sales.product.manage", "sales.activity.read", "sales.activity.create", "sales.import.create",
   "sales.report.read", "admin.membership.manage", "admin.sso.manage", "finance.invoice.read",
   "finance.invoice.create", "finance.invoice.update", "finance.invoice.issue",
   "finance.invoice.send", "finance.invoice.void", "finance.invoice.approve",
   "finance.payment.read", "finance.payment.create", "finance.payment.allocate",
   "finance.credit_note.read", "finance.credit_note.create", "finance.expense.read",
   "finance.expense.create", "finance.expense.approve", "finance.report.read",
   "finance.customer.read", "finance.ledger.read", "finance.account.manage", "finance.period.read",
   "finance.period.close", "finance.period.reopen", "finance.bank.read", "finance.bank.reconcile",
   "finance.expense_policy.manage", "finance.reimbursement.manage", "operations.project.read",
   "operations.project.create", "operations.project.update", "operations.project.delete",
   "operations.task.read", "operations.task.create", "operations.task.update",
   "operations.task.delete", "operations.task.assign", "operations.task.comment",
   "operations.approval.read", "operations.approval.decide", "operations.approval.manage",
   "operations.workflow.read", "operations.workflow.write", "operations.workflow.publish",
   "operations.workflow.run", "operations.workflow.manage", "platform.notification.read",
   "platform.notification.manage", "platform.search.read", "platform.search.reindex",
   "platform.file.read", "platform.file.create", "platform.analytics.read",
   "analytics.report.read", "analytics.report.write", "analytics.report.run",
   "analytics.report.share", "analytics.report.export", "analytics.dashboard.read",
   "analytics.dashboard.write", "analytics.schedule.write", "ai.copilot.use", "ai.proposal.create",
   "ai.proposal.commit", "ai.settings.read", "ai.settings.manage", "ai.insights.read",
   "ai.document.extract", "hr.employee.read", "hr.employee.read_sensitive",
   "hr.field.compensation_read", "hr.field.government_id_read", "hr.field.bank_read",
   "finance.field.bank_account_read", "finance.field.salary_journal_read",
   "admin.access_review.read", "admin.access_review.manage", "admin.audit.verify",
   "admin.retention.manage", "admin.api_key.manage", "admin.webhook.read", "admin.webhook.write",
   "admin.webhook.replay", "admin.marketplace.read", "admin.marketplace.write",
   "admin.marketplace.review", "admin.marketplace.install", "admin.marketplace.uninstall",
   "hr.employee.write", "hr.employee.onboard", "hr.employee.offboard", "hr.document.read",
   "hr.document.write", "hr.attendance.read", "hr.attendance.write", "hr.leave.read",
   "hr.leave.write", "hr.leave.approve", "hr.payroll.read", "hr.payroll.write",
   "hr.payroll.approve", "hr.payroll.run", "finance.journal.post", "inventory.item.read",
   "inventory.item.write", "inventory.warehouse.read", "inventory.warehouse.write",
   "inventory.stock.read", "inventory.stock.move", "inventory.supplier.read",
   "inventory.supplier.write", "inventory.purchase_request.read",
   "inventory.purchase_request.write", "inventory.purchase_order.read",
   "inventory.purchase_order.write", "inventory.goods_receipt.read",
   "inventory.goods_receipt.write", "inventory.asset.read", "inventory.asset.write",
   "sales.order.read", "sales.order.create", "sales.order.update", "sales.contract.read",
   "sales.contract.create", "sales.contract.update", "sales.contract.publish",
   "sales.territory.read", "sales.territory.manage", "finance.tax.read", "finance.tax.manage",
   "finance.dunning.read", "finance.dunning.manage", "finance.entity.read",
   "finance.entity.manage", "finance.consolidation.run", "finance.consolidation.read",
   "finance.intercompany.manage", "admin.scim.manage", "admin.cmk.read", "admin.cmk.rotate",
   "admin.cmk.revoke", "admin.network.manage", "admin.sla.read", "admin.sla.manage",
   "admin.ediscovery.export", "workspace.grant.delegate", "workspace.grant.inherit",
   "operations.timesheet.read", "operations.timesheet.write", "operations.timesheet.submit",
   "operations.timesheet.approve", "operations.capacity.read", "operations.capacity.manage",
   "ai.meeting_summary.read", "ai.meeting_summary.accept", "ai.agent.read", "ai.agent.run",
   "ai.agent.manage", "ai.agent.kill", "custom.builder.read", "custom.builder.manage",
   "custom.package.export", "custom.package.import", "custom.demo_asset.read",
   "custom.demo_asset.write"]

inductive Role
  | owner | admin | finance | sales | manager | member | readOnly
  deriving DecidableEq

namespace Role

def parse (s : String) : Option Role :=
  match s with
  | "owner" => some owner
  | "admin" => some admin
  | "finance" => some finance
  | "sales" => some sales
  | "manager" => some manager
  | "member" => some member
  | "read_only" | "readonly" | "read-only" => some readOnly
  | _ => none

def asStr : Role → String
  | owner => "owner"
  | admin => "admin"
  | finance => "finance"
  | sales => "sales"
  | manager => "manager"
  | member => "member"
  | readOnly => "read_only"

theorem parse_asStr (r : Role) : parse r.asStr = some r := by
  cases r <;> rfl

/-- Default allows for the role; explicit denials still win. -/
def defaultAllows : Role → List PermissionId
  | owner => permissionCatalogue
  | admin => permissionCatalogue.filter (· ≠ "workspace.org.create")
  | finance =>
    ["workspace.dashboard.read", "workspace.org.read", "workspace.member.read",
     "workspace.role.read", "workspace.team.read", "workspace.department.read",
     "finance.invoice.read", "finance.invoice.create", "finance.invoice.update",
     "finance.invoice.issue", "finance.invoice.send", "finance.invoice.void",
     "finance.invoice.approve", "finance.payment.read", "finance.payment.create",
     "finance.payment.allocate", "finance.credit_note.read", "finance.credit_note.create",
     "finance.expense.read", "finance.expense.create", "finance.expense.approve",
     "finance.report.read", "finance.customer.read", "finance.ledger.read",
     "operations.approval.read", "operations.approval.decide", "operations.workflow.read",
     "platform.notification.read", "platform.search.read", "platform.file.read",
     "platform.file.create", "platform.analytics.read", "analytics.report.read",
     "analytics.report.write", "analytics.report.run", "analytics.report.share",
     "analytics.report.export", "analytics.dashboard.read", "analytics.dashboard.write",
     "ai.copilot.use", "ai.proposal.create", "ai.proposal.commit", "ai.settings.read",
     "ai.insights.read", "ai.document.extract", "ai.meeting_summary.read",
     "ai.meeting_summary.accept", "ai.agent.read", "ai.agent.run", "custom.builder.read",
     "hr.employee.read", "hr.employee.read_sensitive", "hr.field.compensation_read",
     "hr.field.government_id_read", "hr.field.bank_read", "hr.document.read", "hr.attendance.read",
     "hr.leave.read", "hr.payroll.read", "hr.payroll.approve", "finance.journal.post",
     "finance.account.manage", "finance.period.read", "finance.period.close",
     "finance.period.reopen", "finance.bank.read", "finance.bank.reconcile",
     "finance.field.bank_account_read", "finance.field.salary_journal_read",
     "finance.expense_policy.manage", "finance.reimbursement.manage", "inventory.item.read",
     "inventory.warehouse.read", "inventory.stock.read", "inventory.supplier.read",
     "inventory.purchase_request.read", "inventory.purchase_order.read",
     "inventory.goods_receipt.read", "inventory.asset.read", "finance.tax.read",
     "finance.tax.manage", "finance.dunning.read", "finance.dunning.manage", "finance.entity.read",
     "finance.entity.manage", "finance.consolidation.read", "finance.consolidation.run",
     "finance.intercompany.manage"]
  | sales =>
    ["workspace.dashboard.read", "workspace.org.read", "workspace.member.read",
     "workspace.role.read", "workspace.team.read", "workspace.department.read",
     "sales.customer.read", "sales.customer.create", "sales.customer.update", "sales.contact.read",
     "sales.contact.create", "sales.contact.update", "sales.lead.read", "sales.lead.create",
     "sales.lead.update", "sales.lead.convert", "sales.pipeline.read", "sales.pipeline.manage",
     "sales.deal.read", "sales.deal.create", "sales.deal.update", "sales.deal.win",
     "sales.deal.lose", "sales.quote.read", "sales.quote.create", "sales.quote.update",
     "sales.quote.accept", "sales.product.read", "sales.product.manage", "sales.activity.read",
     "sales.activity.create", "sales.import.create", "sales.report.read", "sales.order.read",
     "sales.order.create", "sales.order.update", "sales.contract.read", "sales.contract.create",
     "sales.contract.update", "sales.contract.publish", "sales.territory.read",
     "sales.territory.manage", "finance.customer.read", "finance.invoice.read",
     "finance.invoice.create", "operations.project.read", "operations.project.create",
     "operations.task.read", "operations.task.create", "operations.task.update",
     "operations.task.comment", "operations.approval.read", "operations.workflow.read",
     "operations.workflow.write", "operations.workflow.run", "platform.notification.read",
     "platform.search.read", "platform.file.read", "platform.file.create",
     "platform.analytics.read", "analytics.report.read", "analytics.report.run",
     "analytics.dashboard.read", "ai.copilot.use", "ai.proposal.create", "ai.proposal.commit",
     "ai.settings.read", "ai.insights.read", "ai.document.extract", "ai.meeting_summary.read",
     "ai.meeting_summary.accept", "ai.agent.read", "ai.agent.run", "operations.timesheet.read",
     "operations.timesheet.write", "operations.timesheet.submit", "operations.capacity.read",
     "hr.employee.read", "hr.attendance.read", "hr.leave.read"]
  | manager =>
    ["workspace.dashboard.read", "workspace.org.read", "workspace.member.read",
     "workspace.member.invite", "workspace.role.read", "workspace.team.read",
     "workspace.team.manage", "workspace.department.read", "admin.membership.manage",
     "sales.customer.read", "sales.contact.read", "sales.lead.read", "sales.pipeline.read",
     "sales.deal.read", "sales.deal.update", "sales.quote.read", "sales.product.read",
     "sales.activity.read", "sales.report.read", "finance.invoice.read", "finance.expense.read",
     "finance.expense.create", "finance.report.read", "finance.customer.read",
     "operations.project.read", "operations.project.create", "operations.project.update",
     "operations.project.delete", "operations.task.read", "operations.task.create",
     "operations.task.update", "operations.task.delete", "operations.task.assign",
     "operations.task.comment", "operations.approval.read", "operations.approval.decide",
     "operations.workflow.read", "operations.workflow.write", "operations.workflow.run",
     "operations.timesheet.read", "operations.timesheet.write", "operations.timesheet.submit",
     "operations.timesheet.approve", "operations.capacity.read", "operations.capacity.manage",
     "sales.order.read", "sales.contract.read", "sales.contract.publish", "sales.territory.read",
     "ai.meeting_summary.read", "ai.meeting_summary.accept", "ai.agent.read", "ai.agent.run",
     "platform.notification.read", "platform.search.read", "platform.search.reindex",
     "platform.file.read", "platform.file.create", "platform.analytics.read",
     "analytics.report.read", "analytics.report.write", "analytics.report.run",
     "analytics.report.share", "analytics.report.export", "analytics.dashboard.read",
     "analytics.dashboard.write", "ai.copilot.use", "ai.proposal.create", "ai.proposal.commit",
     "ai.settings.read", "ai.insights.read", "ai.document.extract", "hr.employee.read",
     "hr.employee.read_sensitive", "hr.field.compensation_read", "hr.field.government_id_read",
     "hr.field.bank_read", "hr.employee.write", "hr.employee.onboard", "hr.employee.offboard",
     "hr.document.read", "hr.document.write", "hr.attendance.read", "hr.attendance.write",
     "hr.leave.read", "hr.leave.write", "hr.leave.approve", "hr.payroll.read", "hr.payroll.write",
     "hr.payroll.approve", "hr.payroll.run", "finance.journal.post", "finance.period.read",
     "finance.bank.read", "inventory.item.read", "inventory.item.write",
     "inventory.warehouse.read", "inventory.warehouse.write", "inventory.stock.read",
     "inventory.stock.move", "inventory.supplier.read", "inventory.supplier.write",
     "inventory.purchase_request.read", "inventory.purchase_request.write",
     "inventory.purchase_order.read", "inventory.purchase_order.write",
     "inventory.goods_receipt.read", "inventory.goods_receipt.write", "inventory.asset.read",
     "inventory.asset.write"]
  | member =>
    ["workspace.dashboard.read", "workspace.org.read", "workspace.member.read",
     "workspace.role.read", "workspace.team.read", "workspace.department.read",
     "sales.customer.read", "sales.contact.read", "sales.lead.read", "sales.pipeline.read",
     "sales.deal.read", "sales.quote.read", "sales.product.read", "sales.activity.read",
     "sales.report.read", "sales.order.read", "sales.contract.read", "sales.territory.read",
     "finance.expense.read", "finance.expense.create", "finance.tax.read", "finance.dunning.read",
     "finance.entity.read", "operations.project.read", "operations.task.read",
     "operations.task.create", "operations.task.comment", "operations.approval.read",
     "operations.workflow.read", "operations.workflow.write", "operations.workflow.run",
     "operations.timesheet.read", "operations.timesheet.write", "operations.timesheet.submit",
     "operations.capacity.read", "ai.meeting_summary.read", "ai.meeting_summary.accept",
     "ai.agent.read", "ai.agent.run", "custom.builder.read", "platform.notification.read",
     "platform.search.read", "platform.file.read", "platform.file.create", "analytics.report.read",
     "analytics.report.run", "analytics.dashboard.read", "ai.copilot.use", "ai.proposal.create",
     "ai.proposal.commit", "ai.settings.read", "ai.insights.read", "ai.document.extract",
     "hr.employee.read", "hr.document.read", "hr.attendance.read", "hr.attendance.write",
     "hr.leave.read", "hr.leave.write", "inventory.item.read", "inventory.warehouse.read",
     "inventory.stock.read", "inventory.purchase_request.read", "inventory.purchase_request.write",
     "admin.marketplace.read"]
  | readOnly =>
    ["workspace.dashboard.read", "workspace.org.read", "workspace.member.read",
     "workspace.role.read", "workspace.team.read", "workspace.department.read",
     "sales.customer.read", "sales.contact.read", "sales.lead.read", "sales.pipeline.read",
     "sales.deal.read", "sales.quote.read", "sales.product.read", "sales.activity.read",
     "sales.report.read", "finance.invoice.read", "finance.report.read", "finance.customer.read",
     "operations.project.read", "operations.task.read", "operations.approval.read",
     "operations.workflow.read", "platform.notification.read", "platform.search.read",
     "platform.file.read", "platform.analytics.read", "analytics.report.read",
     "analytics.report.run", "analytics.dashboard.read", "ai.copilot.use", "ai.settings.read",
     "ai.insights.read", "ai.agent.read", "custom.builder.read", "hr.employee.read",
     "hr.document.read", "hr.attendance.read", "hr.leave.read", "inventory.item.read",
     "inventory.warehouse.read", "inventory.stock.read", "inventory.supplier.read",
     "inventory.purchase_request.read", "inventory.purchase_order.read",
     "inventory.goods_receipt.read", "inventory.asset.read", "admin.marketplace.read"]

end Role

/-- Exactly three dotted segments, none empty. -/
def validatePermissionId (id : String) : Bool :=
  let parts := Json.splitChar '.' id
  parts.length = 3 && parts.all (· ≠ "")

example : validatePermissionId "finance.invoice.approve" = true ∧ validatePermissionId ".b.c" = false := by
  decide +kernel

end Noxara.Authz
