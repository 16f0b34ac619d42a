import AgenticDelivery.Atomic.RelyGuarantee
import AgenticDelivery.Api.History
import AgenticDelivery.Api.Attribution
import AgenticDelivery.Api.Decisions
import AgenticDelivery.Api.ApprovedWork
import AgenticDelivery.Api.StoredWorkflows
import AgenticDelivery.Api.Intake
import AgenticDelivery.Api.Retries
import AgenticDelivery.Api.Failures
import AgenticDelivery.Api.AuditTrail
import AgenticDelivery.Api.Starvation
import AgenticDelivery.Api.Confidentiality
import AgenticDelivery.Api.ProhibitedData
import AgenticDelivery.Api.StoredRequest
import AgenticDelivery.Api.Chronology
import AgenticDelivery.Runtime.Checkpoint
import AgenticDelivery.Runtime.LocalPlan
import AgenticDelivery.Runtime.Citations
import AgenticDelivery.Runtime.Relevance
import AgenticDelivery.Api.QueueLaw
import AgenticDelivery.Api.RateLimiter
import AgenticDelivery.Governance.Protection
import AgenticDelivery.Runtime.Layout
import AgenticDelivery.Api.Redaction
import AgenticDelivery.Api.RedactionLosses
import AgenticDelivery.Api.Snapshots
import AgenticDelivery.Api.ActionPayload
import AgenticDelivery.Api.AuditTruth
import AgenticDelivery.Api.LocalOutcomes
import AgenticDelivery.Api.AuditLog
import AgenticDelivery.Api.Completion
import AgenticDelivery.Api.HttpLimits
import AgenticDelivery.Api.HttpViews
import AgenticDelivery.Api.HttpTurns
import AgenticDelivery.Api.Digests
import AgenticDelivery.Evaluator.Golden
import AgenticDelivery.Api.HttpAlone
import AgenticDelivery.Evaluator.Certified
import AgenticDelivery.Web.Console
import AgenticDelivery.Web.Visits
