import Mathlib.Data.Finset.Sort
import Mathlib.Data.String.Basic
import AgenticDelivery.Api.History
import AgenticDelivery.Api.StoredRequest
import AgenticDelivery.Api.Telemetry

/-! # What the API answers

The response bodies of `dto.py`, and the problems that `main.py` makes of the errors
of `errors.py`. The idempotency keys of an approval and of a ticket are not part of a
body. -/
namespace AgenticDelivery.Api
open AgenticDelivery.Atomic AgenticDelivery.Data AgenticDelivery.Governance AgenticDelivery.Runtime

/-! ## Errors -/

def ErrorKind.statusCode : ErrorKind → Int
  | .permissionDenied | .dataProcessingDenied => 403
  | .workflowNotFound | .noPendingTask => 404
  | .idempotencyConflict | .invalidWorkflowState | .approvalExpired => 409
  | .complianceOverlayUnavailable | .promptInjectionRejected | .evaluationGateRejected => 422

def ErrorKind.title : ErrorKind → String
  | .permissionDenied => "Permission denied"
  | .workflowNotFound => "Workflow not found"
  | .idempotencyConflict => "Idempotency conflict"
  | .invalidWorkflowState => "Invalid workflow state"
  | .dataProcessingDenied => "Data processing denied"
  | .complianceOverlayUnavailable => "Compliance overlay unavailable"
  | .approvalExpired => "Approval expired"
  | .noPendingTask => "No pending task"
  | .promptInjectionRejected => "Prompt injection blocked"
  | .evaluationGateRejected => "Evaluation gate rejected the proposal"

def ErrorKind.typeSuffix : ErrorKind → String
  | .permissionDenied => "permission-denied"
  | .workflowNotFound => "workflow-not-found"
  | .idempotencyConflict => "idempotency-conflict"
  | .invalidWorkflowState => "invalid-workflow-state"
  | .dataProcessingDenied => "data-processing-denied"
  | .complianceOverlayUnavailable => "compliance-overlay-unavailable"
  | .approvalExpired => "approval-expired"
  | .noPendingTask => "no-pending-task"
  | .promptInjectionRejected => "prompt-injection-blocked"
  | .evaluationGateRejected => "evaluation-gate-rejected"

/-- What the code of a request raises: an error of the service, one of the checks at the
boundary, or a body or parameter that does not match its model. -/
inductive HttpError
  | service (failure : Failure)
  | authenticationRequired (detail : String)
  | invalidRequestMetadata (detail : String)
  | requestRateExceeded (detail : String)
  | requestValidation
  deriving DecidableEq

structure ProblemResponse where
  type : String
  title : String
  status : Int
  detail : String
  correlationId : String
  deriving DecidableEq

/-- `_problem` -/
def problem (statusCode : Int) (title detail typeSuffix correlation : String) :
    ProblemResponse where
  type := "https://agentic-delivery.local/problems/" ++ typeSuffix
  title
  status := statusCode
  detail
  correlationId := correlation

/-- `handle_application_error` and `handle_validation_error`; an error that no handler is
registered for is raised again. -/
def HttpError.handled (correlation : String) : HttpError → Except Failure ProblemResponse
  | .service (.application kind detail) =>
    .ok (problem kind.statusCode kind.title detail kind.typeSuffix correlation)
  | .service failure => .error failure
  | .authenticationRequired detail =>
    .ok (problem 401 "Authentication required" detail "authentication-required" correlation)
  | .invalidRequestMetadata detail =>
    .ok (problem 400 "Invalid request metadata" detail "invalid-request-metadata" correlation)
  | .requestRateExceeded detail =>
    .ok (problem 429 "Request rate exceeded" detail "request-rate-exceeded" correlation)
  | .requestValidation =>
    .ok (problem 422 "Request validation failed"
      "The request body or parameters do not match the API contract." "validation-error"
      correlation)

/-! ## Workflows -/

structure StateTransitionResponse where
  previous : Option WorkflowState
  current : WorkflowState
  at_ : Datetime
  actorType : ActorType
  deriving DecidableEq

/-- An `ApprovalDecision` as it is sent, without the field that is excluded. -/
structure ApprovalDecisionBody where
  decisionId : String
  decision : Decision
  reviewerId : String
  reason : String
  decidedAt : Datetime
  expiresAt : Datetime
  proposalDigest : String
  consumedAt : Option Datetime
  deriving DecidableEq

/-- A `ToolExecutionResult` as it is sent, without the field that is excluded. -/
structure ToolExecutionResultBody where
  executionId : String
  ticketId : String
  status : String
  simulated : Bool
  executedAt : Datetime
  proposalDigest : String
  deriving DecidableEq

def ApprovalDecision.body (approval : ApprovalDecision) : ApprovalDecisionBody where
  decisionId := approval.decisionId
  decision := approval.decision
  reviewerId := approval.reviewerId
  reason := approval.reason
  decidedAt := approval.decidedAt
  expiresAt := approval.expiresAt
  proposalDigest := approval.proposalDigest
  consumedAt := approval.consumedAt

def ToolExecutionResult.body (result : ToolExecutionResult) : ToolExecutionResultBody where
  executionId := result.executionId
  ticketId := result.ticketId
  status := result.status
  simulated := result.simulated
  executedAt := result.executedAt
  proposalDigest := result.proposalDigest

structure WorkflowResponse where
  workflowId : String
  status : WorkflowState
  stateVersion : Nat
  createdAt : Datetime
  correlationId : String
  request : String
  requestedLocale : String
  transitions : List StateTransitionResponse
  classification : Option Classification
  modelPolicy : Option ModelPolicy
  proposal : Option ImplementationProposal
  citations : List Citation
  retrieval : Option RetrievalEvidence
  guardrails : Option GuardrailReport
  evaluation : Option EvaluationGateResult
  metrics : Option ExecutionMetrics
  processingContext : ProcessingContext
  governanceDecisions : List PolicyDecision
  actionProposal : Option ToolActionProposal
  approvalDecision : Option ApprovalDecisionBody
  executionResult : Option ToolExecutionResultBody
  deriving DecidableEq

/-- The fields that `from_domain` passes on. -/
def Workflow.response (workflow : Workflow) : WorkflowResponse where
  workflowId := workflow.workflowId
  status := workflow.status
  stateVersion := workflow.stateVersion
  createdAt := workflow.createdAt
  correlationId := workflow.correlationId
  request := workflow.request
  requestedLocale := workflow.requestedLocale
  transitions := workflow.transitions.map fun transition =>
    ⟨transition.previous, transition.current, transition.at_, transition.actorType⟩
  classification := workflow.planningResult.map (·.classification)
  modelPolicy := workflow.planningResult.map (·.modelPolicy)
  proposal := workflow.planningResult.map (·.proposal)
  citations := (workflow.planningResult.map (·.citations)).getD []
  retrieval := workflow.planningResult.map (·.retrieval)
  guardrails := workflow.planningResult.map (·.guardrails)
  evaluation := workflow.planningResult.map (·.evaluation)
  metrics := workflow.planningResult.map (·.metrics)
  processingContext := workflow.processingContext
  governanceDecisions := workflow.governanceDecisions
  actionProposal := workflow.actionProposal
  approvalDecision := workflow.approvalDecision.map ApprovalDecision.body
  executionResult := workflow.executionResult.map ToolExecutionResult.body

/-- `WorkflowResponse.from_domain`; a status that is none of the literals fails the
validation, and a `ValidationError` is a `ValueError`. -/
def WorkflowResponse.fromDomain (workflow : Workflow) : Except Failure WorkflowResponse :=
  if workflow.status ∈ responseStatuses then .ok workflow.response
  else .error (.valueError "validation error for WorkflowResponse")

/-! ## The other bodies -/

def Role.value : Role → String
  | .requester => "requester"
  | .reviewer => "reviewer"
  | .operator => "operator"
  | .administrator => "administrator"

structure SessionResponse where
  subject : String
  displayName : String
  roles : List String
  deriving DecidableEq

/-- `SessionResponse.from_principal` -/
def SessionResponse.fromPrincipal (principal : Principal) : SessionResponse where
  subject := principal.subject
  displayName := principal.displayName
  roles := (principal.roles.image Role.value).sort (· ≤ ·)

structure AuditEventResponse where
  eventId : String
  occurredAt : Datetime
  actor : Option String
  action : String
  resourceId : Option String
  decision : String
  outcome : String
  correlationId : String
  deriving DecidableEq

def AuditEvent.response (event : AuditEvent) : AuditEventResponse where
  eventId := event.eventId
  occurredAt := event.occurredAt
  actor := event.subject
  action := event.action
  resourceId := event.resourceId
  decision := event.decision
  outcome := event.outcome
  correlationId := event.correlationId

/-- The body of a response. -/
inductive Body (ν : Type)
  /-- what FastAPI answers itself -/
  | framework
  | problem (response : ProblemResponse)
  /-- `HealthResponse` -/
  | health (environment : String)
  /-- `ReadinessResponse` -/
  | ready (checks : List String)
  | session (response : SessionResponse)
  /-- `OperationalMetricsResponse`, the fields of the snapshot -/
  | metrics (snapshot : TelemetrySnapshot ν)
  | auditEvents (events : List AuditEventResponse)
  | workflow (response : WorkflowResponse)

end AgenticDelivery.Api
