import AgenticDelivery.Api.Adapters
import AgenticDelivery.Atomic.Program
import AgenticDelivery.Data.Text

/-! # Ports of the service

What the service calls, as atomic operations on the state of the local
adapters, and what the adapters and the surroundings answer. The classifier and
the policy decision point are pure functions; a runtime may answer each of its
calls differently, and the id factory gives out the ids of one stream. -/
namespace AgenticDelivery.Api
open AgenticDelivery.Atomic AgenticDelivery.Data AgenticDelivery.Governance AgenticDelivery.Runtime

structure Environment where
  /-- what the runtime answers to its `n`-th call -/
  runtime : Nat → PlanningInput → Except RuntimeError PlanningResult
  classifier : DataClassifier
  policy : PolicyDecisionPoint
  /-- the `n`-th id -/
  idFactory : Nat → String
  /-- `str.lower` -/
  lower : String → String
  /-- `TicketArguments.model_json_schema(by_alias=True)` -/
  ticketSchema : Json

structure State where
  repository : InMemoryWorkflowRepository := {}
  audit : List AuditEvent := []
  taskQueue : InMemoryTaskQueue := {}
  toolExecutor : SimulatedTicketExecutor := {}
  /-- what `now_factory()` reads -/
  now : Datetime
  /-- what `datetime.now(UTC)` reads -/
  utc : Datetime
  /-- the caller each id went to, in the order of the ids -/
  issued : List Nat := []
  runtimeCalls : Nat := 0

inductive Op
  | repositoryCreate (workflow : Workflow) (idempotencyKey : String)
  | repositoryGet (workflowId : String)
  | repositoryUpdate (workflow : Workflow) (expectedStateVersion : Nat)
  | auditRecord (action outcome : String) (subject resourceId : Option String)
      (correlationId : String)
  | runtimePlan (planningInput : PlanningInput)
  | classify (text : String) (declaredCategories : Option (Finset DataCategory))
  | evaluate (context : ProcessingContext)
  | enqueue (task : ExecutionTask)
  | claimNext
  | complete (taskId : String)
  | execute (task : ExecutionTask) (proposal : ToolActionProposal) (now : Datetime)
  | idFactory
  | nowFactory
  | utcNow

@[reducible] def Reply : Op → Type
  | .repositoryCreate .. | .repositoryUpdate .. => Except Failure Workflow
  | .repositoryGet _ => Option Workflow
  | .auditRecord .. | .complete _ => Unit
  | .runtimePlan _ => Except RuntimeError PlanningResult
  | .classify .. => DataProfile
  | .evaluate _ => PolicyDecision
  | .enqueue _ => Except Failure ExecutionTask
  | .claimNext => Except Failure (Option ExecutionTask)
  | .execute .. => Except Failure ToolExecutionResult
  | .idFactory => String
  | .nowFactory | .utcNow => Datetime

/-- One atomic step of caller `tid`. -/
def exec (env : Environment) (tid : Nat) : (op : Op) → State → Reply op × State
  | .repositoryCreate workflow key, s =>
    let r := s.repository.create workflow key
    (r.1, { s with repository := r.2 })
  | .repositoryGet workflowId, s => (s.repository.get workflowId, s)
  | .repositoryUpdate workflow version, s =>
    let r := s.repository.update workflow version
    (r.1, { s with repository := r.2 })
  | .auditRecord action outcome subject resourceId correlationId, s =>
    ((), { s with
      audit := recordAudit s.audit s.utc action outcome subject resourceId correlationId })
  | .runtimePlan planningInput, s =>
    (env.runtime s.runtimeCalls planningInput, { s with runtimeCalls := s.runtimeCalls + 1 })
  | .classify text declaredCategories, s => (env.classifier text declaredCategories, s)
  | .evaluate context, s => (env.policy context, s)
  | .enqueue task, s =>
    let r := s.taskQueue.enqueue task
    (r.1, { s with taskQueue := r.2 })
  | .claimNext, s =>
    let r := s.taskQueue.claimNext
    (r.1, { s with taskQueue := r.2 })
  | .complete taskId, s => ((), { s with taskQueue := s.taskQueue.complete taskId })
  | .execute task proposal now, s =>
    let r := s.toolExecutor.execute task proposal now
    (r.1, { s with toolExecutor := r.2 })
  | .idFactory, s => (env.idFactory s.issued.length, { s with issued := s.issued ++ [tid] })
  | .nowFactory, s => (s.now, s)
  | .utcNow, s => (s.utc, s)

/-- A method of the service: a program over the ports. -/
abbrev Service (α : Type) := Program Op Reply Failure α

namespace Service
open Program

/-- One call of a port. -/
def port (op : Op) : Service (Reply op) := perform op

def fail {α : Type} (kind : ErrorKind) (detail : String) : Service α :=
  .raise (.application kind detail)

def repositoryCreate (workflow : Workflow) (idempotencyKey : String) : Service Workflow :=
  port (.repositoryCreate workflow idempotencyKey) >>= orRaise

def repositoryGet (workflowId : String) : Service (Option Workflow) :=
  port (.repositoryGet workflowId)

def repositoryUpdate (workflow : Workflow) (expectedStateVersion : Nat) : Service Workflow :=
  port (.repositoryUpdate workflow expectedStateVersion) >>= orRaise

def auditRecord (action outcome : String) (subject resourceId : Option String)
    (correlationId : String) : Service Unit :=
  port (.auditRecord action outcome subject resourceId correlationId)

def runtimePlan (planningInput : PlanningInput) : Service (Except RuntimeError PlanningResult) :=
  port (.runtimePlan planningInput)

def classify (text : String) (declaredCategories : Option (Finset DataCategory)) :
    Service DataProfile :=
  port (.classify text declaredCategories)

def evaluate (context : ProcessingContext) : Service PolicyDecision := port (.evaluate context)

def enqueue (task : ExecutionTask) : Service ExecutionTask := port (.enqueue task) >>= orRaise

def claimNext : Service (Option ExecutionTask) := port .claimNext >>= orRaise

def complete (taskId : String) : Service Unit := port (.complete taskId)

def execute (task : ExecutionTask) (proposal : ToolActionProposal) (now : Datetime) :
    Service ToolExecutionResult :=
  port (.execute task proposal now) >>= orRaise

def idFactory : Service String := port .idFactory

def nowFactory : Service Datetime := port .nowFactory

def utcNow : Service Datetime := port .utcNow

end Service

end AgenticDelivery.Api
