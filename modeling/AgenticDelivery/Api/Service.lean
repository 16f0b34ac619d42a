import AgenticDelivery.Api.Ports
import AgenticDelivery.Atomic.Pool

/-! # The workflow service

The use cases of the application, as programs over the ports, and the system of
any number of concurrent calls of them. -/
namespace AgenticDelivery.Api
open AgenticDelivery.Atomic AgenticDelivery.Data AgenticDelivery.Governance AgenticDelivery.Runtime
open Service Program

/-- The arguments of `create`. -/
structure CreateRequest where
  principal : Principal
  request : String
  requestedLocale : String
  idempotencyKey : String
  correlationId : String
  declaredCategories : Option (Finset DataCategory) := none
  purpose : ProcessingPurpose := .deliveryPlanning
  jurisdiction : String := "US"
  overlayIds : List String := ["common-us-baseline"]
  deriving DecidableEq

/-- The context `create` puts before the policy. -/
def CreateRequest.intakeContext (r : CreateRequest) (profile : DataProfile) : ProcessingContext :=
  { subjectId := r.principal.subject
    purpose := r.purpose
    operation := .workflowIntake
    provider := "local-api"
    jurisdiction := r.jurisdiction
    dataProfile := profile
    overlayIds := r.overlayIds }

/-- `raise DataProcessingDenied(decision.reasons[0])` -/
def denyProcessing (decision : PolicyDecision) : Service Workflow :=
  match decision.reasons.head? with
  | some reason => fail .dataProcessingDenied reason
  | none => .raise (.indexError "tuple index out of range")

namespace WorkflowService

def create (env : Environment) (r : CreateRequest) : Service Workflow := do
  if r.principal.roles ∩ {.requester, .administrator} = ∅ then do
    auditRecord "workflow.create" "denied" r.principal.subject none r.correlationId
    fail .permissionDenied "The current role cannot create service requests."
  else
  let normalizedRequest := normalizeRequest r.request
  if r.overlayIds.toFinset ≠ {"common-us-baseline"} then
    fail .complianceOverlayUnavailable
      "Only the reviewed common-us-baseline overlay is active in this phase."
  else do
  let profile ← classify normalizedRequest r.declaredCategories
  let processingContext := r.intakeContext profile
  let decision ← evaluate processingContext
  auditRecord "data_processing.workflow_intake" decision.outcome.value r.principal.subject none
    r.correlationId
  if decision.executionAllowed = false then
    denyProcessing decision
  else do
  let workflowId ← idFactory
  let createdAt ← utcNow
  let workflow := Workflow.receive workflowId r.principal.subject normalizedRequest
    (env.lower r.requestedLocale) r.correlationId processingContext decision createdAt
  let stored ← repositoryCreate workflow r.idempotencyKey
  auditRecord "workflow.create" "accepted" r.principal.subject stored.workflowId r.correlationId
  return stored

def get (principal : Principal) (workflowId correlationId : String) : Service Workflow := do
  let found ← repositoryGet workflowId
  match found with
  | some workflow =>
    if workflow.ownerId ≠ principal.subject ∧
        principal.roles ∩ {.reviewer, .operator, .administrator} = ∅ then
      notFound
    else do
      auditRecord "workflow.read" "allowed" principal.subject workflowId correlationId
      return workflow
  | none => notFound
where
  notFound : Service Workflow := do
    auditRecord "workflow.read" "not_found" principal.subject workflowId correlationId
    fail .workflowNotFound "The workflow does not exist or is not accessible."

/-- The `PlanningInput` of a workflow. -/
def planningInput (workflow : Workflow) (correlationId : String) : PlanningInput :=
  { workflowId := workflow.workflowId
    ownerId := workflow.ownerId
    request := workflow.request
    requestedLocale := workflow.requestedLocale
    correlationId }

def plan (env : Environment) (principal : Principal) (workflowId correlationId : String) :
    Service Workflow := do
  let found ← repositoryGet workflowId
  match found with
  | none => notFound
  | some workflow =>
  if workflow.ownerId ≠ principal.subject ∧ .administrator ∉ principal.roles then
    notFound
  else if workflow.planningResult ≠ none then
    return workflow
  else if workflow.status ≠ .received then
    fail .invalidWorkflowState "Only a received workflow can be planned."
  else do
  let decision ← evaluate (planningContext workflow.processingContext)
  auditRecord "data_processing.agent_planning" decision.outcome.value principal.subject workflowId
    correlationId
  if decision.executionAllowed = false then
    denyProcessing decision
  else do
  let planned ← runtimePlan (planningInput workflow correlationId)
  match planned with
  | .error (.promptInjectionBlocked message) => do
    auditRecord "guardrail.input" "blocked" principal.subject workflowId correlationId
    fail .promptInjectionRejected message
  | .error (.evaluationGateBlocked result) => do
    auditRecord "evaluation.planning_gate" "failed" principal.subject workflowId correlationId
    fail .evaluationGateRejected (RuntimeError.evaluationGateBlocked result).message
  | .error (.other message) => .raise (.runtime message)
  | .ok result => do
    let now ← nowFactory
    let proposal := createToolProposal env.ticketSchema workflow.workflowId result now
    let transitionedAt ← utcNow
    let planned := workflow.applyPlanningResult result decision proposal transitionedAt
    let stored ← repositoryUpdate planned workflow.stateVersion
    auditRecord "workflow.plan" "evaluated" principal.subject workflowId correlationId
    return stored
where
  notFound : Service Workflow := do
    auditRecord "workflow.plan" "not_found" principal.subject workflowId correlationId
    fail .workflowNotFound "The workflow does not exist or is not accessible."

/-- `if decision == "approved"`: enqueue the execution task of the proposal. -/
def enqueueApproved (decision : Decision) (workflow : Workflow) (proposal : ToolActionProposal) :
    Service Unit :=
  match decision with
  | .approved => do
    let _ ← enqueue (createExecutionTask workflow.workflowId proposal.proposalDigest)
    return ()
  | .rejected => return ()

/-- The replay branch of `decide_approval`: the workflow has a decision already. -/
def replayDecision (workflow : Workflow) (existing : ApprovalDecision) (decision : Decision)
    (idempotencyKey : String) : Service Workflow :=
  if existing.idempotencyKey ≠ idempotencyKey then
    fail .invalidWorkflowState "The approval request has already been decided."
  else if existing.decision ≠ decision then
    fail .idempotencyConflict
      "The idempotency key was already used for another approval decision."
  else
  match workflow.actionProposal with
  | some proposal => do
    enqueueApproved decision workflow proposal
    return workflow
  | none => return workflow

/-- The first decision of `decide_approval`, on a pending proposal. -/
def firstDecision (principal : Principal) (workflowId : String) (workflow : Workflow)
    (proposal : ToolActionProposal) (decision : Decision)
    (reason idempotencyKey correlationId : String) : Service Workflow := do
  let now ← nowFactory
  if now > proposal.expiresAt then do
    let _ ← repositoryUpdate (workflow.expire now) workflow.stateVersion
    auditRecord "workflow.approval" "expired" principal.subject workflowId correlationId
    fail .approvalExpired "The proposal expired before it could be decided."
  else do
  let approval := createApprovalDecision proposal principal.subject decision reason idempotencyKey
    now
  let stored ← repositoryUpdate (workflow.recordApproval approval now) workflow.stateVersion
  enqueueApproved decision workflow proposal
  auditRecord "workflow.approval" decision.value principal.subject workflowId correlationId
  return stored

def decideApproval (principal : Principal) (workflowId : String) (decision : Decision)
    (reason idempotencyKey correlationId : String) : Service Workflow := do
  if principal.roles ∩ {.reviewer, .administrator} = ∅ then do
    auditRecord "workflow.approval" "denied" principal.subject none correlationId
    fail .permissionDenied "The current role cannot decide approval requests."
  else do
  let found ← repositoryGet workflowId
  match found with
  | none => fail .workflowNotFound "The workflow does not exist or is not accessible."
  | some workflow =>
  if workflow.ownerId = principal.subject then do
    auditRecord "workflow.approval" "self_approval_denied" principal.subject workflowId
      correlationId
    fail .permissionDenied "A requester cannot approve their own workflow."
  else
  match workflow.approvalDecision with
  | some existing => replayDecision workflow existing decision idempotencyKey
  | none =>
  match workflow.actionProposal with
  | none => fail .invalidWorkflowState "Only a pending proposal can be decided."
  | some proposal =>
    if workflow.status ≠ .awaitingApproval then
      fail .invalidWorkflowState "Only a pending proposal can be decided."
    else
      firstDecision principal workflowId workflow proposal decision reason idempotencyKey
        correlationId

/-- The branch of `execute_task` for an approved workflow: check the expiry and
the policy, then store the workflow as executing. -/
def startExecution (task : ExecutionTask) (actor correlationId : String) (workflow : Workflow)
    (approval : ApprovalDecision) (now : Datetime) : Service Workflow := do
  if now > approval.expiresAt then do
    let _ ← repositoryUpdate (workflow.expire now) workflow.stateVersion
    complete task.taskId
    auditRecord "task.process" "approval_expired" actor workflow.workflowId correlationId
    fail .approvalExpired "The approval expired before task execution."
  else do
  let context := executionContext workflow.processingContext
  let governance ← evaluate context
  auditRecord "data_processing.tool_execution" governance.outcome.value actor workflow.workflowId
    correlationId
  if governance.executionAllowed = false then
    denyProcessing governance
  else
    repositoryUpdate (workflow.beginExecution governance context now) workflow.stateVersion

/-- The end of `execute_task`, for a workflow that is executing. -/
def finishExecution (task : ExecutionTask) (actor correlationId : String)
    (proposal : ToolActionProposal) (now : Datetime) (workflow : Workflow) : Service Workflow := do
  let result ← execute task proposal now
  let completed ← orRaise (workflow.completeExecution result now)
  let stored ← repositoryUpdate completed workflow.stateVersion
  complete task.taskId
  auditRecord "task.process" "completed" actor workflow.workflowId correlationId
  return stored

/-- `execute_task` on a workflow that is not completed yet. -/
def deliverTask (task : ExecutionTask) (actor correlationId : String) (workflow : Workflow) :
    Service Workflow :=
  match workflow.actionProposal, workflow.approvalDecision with
  | some proposal, some approval =>
    if proposal.proposalDigest ≠ task.proposalDigest ∨
        approval.proposalDigest ≠ task.proposalDigest then
      fail .invalidWorkflowState "The task does not match the approved proposal digest."
    else do
    let now ← nowFactory
    if workflow.status = .approved then do
      let started ← startExecution task actor correlationId workflow approval now
      finishExecution task actor correlationId proposal now started
    else if workflow.status ≠ .executing then
      fail .invalidWorkflowState "Only approved work can be executed."
    else
      finishExecution task actor correlationId proposal now workflow
  | _, _ => fail .invalidWorkflowState "The task lacks a bound approval proposal."

def executeTask (task : ExecutionTask) (actor correlationId : String) : Service Workflow := do
  let found ← repositoryGet task.workflowId
  match found with
  | none => fail .workflowNotFound "The task workflow does not exist."
  | some workflow =>
  match workflow.status, workflow.executionResult with
  | .completed, some result =>
    if result.proposalDigest ≠ task.proposalDigest then
      fail .idempotencyConflict "The task does not match the completed proposal."
    else do
      complete task.taskId
      return workflow
  | _, _ => deliverTask task actor correlationId workflow

def processNextTask (principal : Principal) (correlationId : String) : Service Workflow := do
  if principal.roles ∩ {.operator, .administrator} = ∅ then do
    auditRecord "task.process" "denied" principal.subject none correlationId
    fail .permissionDenied "The current role cannot process execution tasks."
  else do
  let claimed ← claimNext
  match claimed with
  | none => fail .noPendingTask "No approved execution task is waiting."
  | some task => executeTask task principal.subject correlationId

end WorkflowService

/-- The calls a client can make. -/
inductive Call
  | create (request : CreateRequest)
  | get (principal : Principal) (workflowId correlationId : String)
  | plan (principal : Principal) (workflowId correlationId : String)
  | decideApproval (principal : Principal) (workflowId : String) (decision : Decision)
      (reason idempotencyKey correlationId : String)
  | processNextTask (principal : Principal) (correlationId : String)
  deriving DecidableEq

def Call.principal : Call → Principal
  | .create request => request.principal
  | .get principal .. | .plan principal .. | .decideApproval principal ..
  | .processNextTask principal _ => principal

def Call.body (env : Environment) : Call → Service Workflow
  | .create request => WorkflowService.create env request
  | .get principal workflowId correlationId =>
    WorkflowService.get principal workflowId correlationId
  | .plan principal workflowId correlationId =>
    WorkflowService.plan env principal workflowId correlationId
  | .decideApproval principal workflowId decision reason idempotencyKey correlationId =>
    WorkflowService.decideApproval principal workflowId decision reason idempotencyKey
      correlationId
  | .processNextTask principal correlationId =>
    WorkflowService.processNextTask principal correlationId

/-- Any number of concurrent calls. A tick sets both clocks to any values. -/
def system (env : Environment) :
    System Op Reply Failure Workflow State Call (Datetime × Datetime) where
  exec := exec env
  body := Call.body env
  tick t s := { s with now := t.1, utc := t.2 }

abbrev PoolConfig := Config Op Reply Failure Workflow State Call
abbrev Caller := Thread Op Reply Failure Workflow State Call
abbrev CallEvent := Event Op Reply

/-- The empty service, at some time. -/
def initial (now utc : Datetime) : PoolConfig := ⟨{ now, utc }, []⟩

/-- The configurations of all runs. -/
def Reachable (env : Environment) (c : PoolConfig) : Prop :=
  ∃ now utc, (system env).Reaches (initial now utc) c

theorem Reachable.step {env : Environment} {c : PoolConfig} (h : Reachable env c)
    (m : Move Call (Datetime × Datetime)) : Reachable env ((system env).step c m) := by
  obtain ⟨now, utc, h⟩ := h
  exact ⟨now, utc, h.step m⟩

end AgenticDelivery.Api
