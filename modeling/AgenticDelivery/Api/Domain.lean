import Mathlib.Data.Finset.Lattice.Basic
import Mathlib.Data.Finset.Insert
import AgenticDelivery.Api.Execution
import AgenticDelivery.Governance.Models

/-! # Identity and the workflow aggregate -/
namespace AgenticDelivery.Api
open AgenticDelivery.Governance AgenticDelivery.Runtime

/-- The application errors the service raises, by class. -/
inductive ErrorKind
  | permissionDenied | workflowNotFound | idempotencyConflict | invalidWorkflowState
  | dataProcessingDenied | complianceOverlayUnavailable | approvalExpired | noPendingTask
  | promptInjectionRejected | evaluationGateRejected
  deriving DecidableEq, Repr

/-- What a call can raise: an `ApplicationError` with its detail, a Python error
of the code itself, or an exception of the runtime that nobody maps. -/
inductive Failure
  | application (kind : ErrorKind) (detail : String)
  | valueError (message : String)
  | keyError (key : String)
  | indexError (message : String)
  | runtime (message : String)
  deriving DecidableEq, Repr

inductive Role
  | requester | reviewer | operator | administrator
  deriving DecidableEq, Repr

structure Principal where
  subject : String
  displayName : String
  roles : Finset Role
  deriving DecidableEq

/-- The states of the workflow state model. -/
inductive WorkflowState
  | received | validated | guarded | classified | contextBuilt | knowledgeRetrieved | planned
  | evaluated | awaitingApproval | approved | rejected | expired | executing | evaluating
  | completed | failed | cancelled
  deriving DecidableEq, Repr

def stateOfStep : CompletedState → WorkflowState
  | .validated => .validated
  | .guarded => .guarded
  | .classified => .classified
  | .contextBuilt => .contextBuilt
  | .knowledgeRetrieved => .knowledgeRetrieved
  | .planned => .planned
  | .evaluated => .evaluated

/-- The status a decision gives: `status=approval.decision`. -/
def stateOfDecision : Decision → WorkflowState
  | .approved => .approved
  | .rejected => .rejected

inductive ActorType
  | user | system | human | worker
  deriving DecidableEq, Repr

structure StateTransition where
  previous : Option WorkflowState
  current : WorkflowState
  at_ : Datetime
  actorType : ActorType
  deriving DecidableEq, Repr

structure Workflow where
  workflowId : String
  ownerId : String
  request : String
  requestedLocale : String
  status : WorkflowState
  stateVersion : Nat
  createdAt : Datetime
  correlationId : String
  transitions : List StateTransition
  processingContext : ProcessingContext
  governanceDecisions : List PolicyDecision
  planningResult : Option PlanningResult := none
  actionProposal : Option ToolActionProposal := none
  approvalDecision : Option ApprovalDecision := none
  executionResult : Option ToolExecutionResult := none
  deriving DecidableEq, Repr

/-- The relabelling of a context before planning. -/
def planningContext (context : ProcessingContext) : ProcessingContext :=
  { context with operation := .agentPlanning, provider := "deterministic-local" }

/-- The relabelling of a context before tool execution. -/
def executionContext (context : ProcessingContext) : ProcessingContext :=
  { context with operation := .toolExecution, provider := "deterministic-local" }

namespace Workflow

def receive (workflowId ownerId request requestedLocale correlationId : String)
    (processingContext : ProcessingContext) (governanceDecision : PolicyDecision)
    (now : Datetime) : Workflow :=
  { workflowId, ownerId, request, requestedLocale
    status := .received
    stateVersion := 1
    createdAt := now
    correlationId
    transitions := [⟨none, .received, now, .user⟩]
    processingContext
    governanceDecisions := [governanceDecision] }

/-- One transition for each graph checkpoint, and the pause for approval. -/
def checkpoints (now : Datetime) (previous : WorkflowState) :
    List CompletedState → List StateTransition
  | [] => [⟨some previous, .awaitingApproval, now, .system⟩]
  | current :: rest =>
    ⟨some previous, stateOfStep current, now, .system⟩ :: checkpoints now (stateOfStep current) rest

variable (self : Workflow)

def applyPlanningResult (result : PlanningResult) (governanceDecision : PolicyDecision)
    (actionProposal : ToolActionProposal) (now : Datetime) : Workflow :=
  { self with
    status := .awaitingApproval
    stateVersion := self.stateVersion + result.completedStates.length + 1
    transitions := self.transitions ++ checkpoints now self.status result.completedStates
    planningResult := some result
    processingContext := planningContext self.processingContext
    governanceDecisions := self.governanceDecisions ++ [governanceDecision]
    actionProposal := some actionProposal }

def recordApproval (approval : ApprovalDecision) (now : Datetime) : Workflow :=
  { self with
    status := stateOfDecision approval.decision
    stateVersion := self.stateVersion + 1
    transitions := self.transitions ++
      [⟨some self.status, stateOfDecision approval.decision, now, .human⟩]
    approvalDecision := some approval }

def expire (now : Datetime) : Workflow :=
  { self with
    status := .expired
    stateVersion := self.stateVersion + 1
    transitions := self.transitions ++ [⟨some self.status, .expired, now, .system⟩] }

def beginExecution (governanceDecision : PolicyDecision) (processingContext : ProcessingContext)
    (now : Datetime) : Workflow :=
  { self with
    status := .executing
    stateVersion := self.stateVersion + 1
    transitions := self.transitions ++ [⟨some self.status, .executing, now, .worker⟩]
    processingContext
    governanceDecisions := self.governanceDecisions ++ [governanceDecision] }

def completeExecution (result : ToolExecutionResult) (now : Datetime) : Except Failure Workflow :=
  match self.approvalDecision with
  | none => .error (.valueError "An approval decision is required before completion.")
  | some approval =>
    .ok { self with
      status := .completed
      stateVersion := self.stateVersion + 2
      transitions := self.transitions ++
        [⟨some self.status, .evaluating, now, .system⟩,
          ⟨some .evaluating, .completed, now, .system⟩]
      approvalDecision := some { approval with consumedAt := some now }
      executionResult := some result }

end Workflow

end AgenticDelivery.Api
