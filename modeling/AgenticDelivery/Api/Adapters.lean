import AgenticDelivery.Api.Domain
import AgenticDelivery.Data.Dict

/-! # The local adapters

Repository, audit sink, task queue and ticket executor of the local profile.
Each of their methods holds one lock, so each is one atomic step. -/
namespace AgenticDelivery.Api
open AgenticDelivery.Data

/-! ## The principals of `LOCAL_IDENTITIES` -/

def localRequester : Principal := ⟨"local-requester", "Local Requester", {.requester}⟩
def localReviewer : Principal := ⟨"local-reviewer", "Local Reviewer", {.reviewer}⟩
def localOperator : Principal := ⟨"local-operator", "Local Operator", {.operator}⟩
def localAdministrator : Principal :=
  ⟨"local-administrator", "Local Administrator", {.administrator}⟩

/-! ## Stores -/

structure InMemoryWorkflowRepository where
  workflows : Dict String Workflow := .empty
  idempotency : Dict (String × String) String := .empty

namespace InMemoryWorkflowRepository
variable (self : InMemoryWorkflowRepository)

def create (workflow : Workflow) (idempotencyKey : String) :
    Except Failure Workflow × InMemoryWorkflowRepository :=
  let scopedKey := (workflow.ownerId, idempotencyKey)
  match self.idempotency.get? scopedKey with
  | some existingId =>
    match self.workflows.get? existingId with
    | none => (.error (.keyError existingId), self)
    | some existing =>
      if existing.request ≠ workflow.request ∨
          existing.requestedLocale ≠ workflow.requestedLocale then
        (.error (.application .idempotencyConflict
          "The idempotency key was already used with a different request."), self)
      else (.ok existing, self)
  | none =>
    (.ok workflow,
      { workflows := self.workflows.set workflow.workflowId workflow
        idempotency := self.idempotency.set scopedKey workflow.workflowId })

def get (workflowId : String) : Option Workflow := self.workflows.get? workflowId

def update (workflow : Workflow) (expectedStateVersion : Nat) :
    Except Failure Workflow × InMemoryWorkflowRepository :=
  let stale : Except Failure Workflow × InMemoryWorkflowRepository :=
    (.error (.application .invalidWorkflowState
      "The workflow changed before the planning result could be stored."), self)
  match self.workflows.get? workflow.workflowId with
  | none => stale
  | some current =>
    if current.stateVersion ≠ expectedStateVersion then stale
    else
      (.ok workflow, { self with workflows := self.workflows.set workflow.workflowId workflow })

end InMemoryWorkflowRepository

structure AuditEvent where
  eventId : String
  occurredAt : Datetime
  action : String
  outcome : String
  decision : String
  subject : Option String
  resourceId : Option String
  correlationId : String
  deriving DecidableEq, Repr

/-- `f"{n:08d}"` -/
def pad8 (n : Nat) : String :=
  String.ofList (List.replicate (8 - (toString n).length) '0') ++ toString n

/-- `InMemoryAuditSink.record`, at the time `now`. -/
def recordAudit (events : List AuditEvent) (now : Datetime) (action outcome : String)
    (subject resourceId : Option String) (correlationId : String) : List AuditEvent :=
  events ++ [
    { eventId := "audit-" ++ pad8 (events.length + 1)
      occurredAt := now
      action, outcome
      decision := outcome
      subject, resourceId, correlationId }]

structure InMemoryTaskQueue where
  tasks : Dict String ExecutionTask := .empty
  order : List String := []
  completed : Finset String := ∅

namespace InMemoryTaskQueue
variable (self : InMemoryTaskQueue)

def enqueue (task : ExecutionTask) : Except Failure ExecutionTask × InMemoryTaskQueue :=
  match self.tasks.get? task.taskId with
  | some existing =>
    if existing.proposalDigest ≠ task.proposalDigest then
      (.error (.application .idempotencyConflict
        "The task identifier is already bound to another proposal."), self)
    else (.ok existing, self)
  | none =>
    (.ok task,
      { self with
        tasks := self.tasks.set task.taskId task
        order := self.order ++ [task.taskId] })

/-- The enqueued identifiers that are not completed, oldest first. -/
def pending : List String := self.order.filter (· ∉ self.completed)

/-- Deliver the first pending task, with one more attempt on its count. -/
def claimNext : Except Failure (Option ExecutionTask) × InMemoryTaskQueue :=
  match self.order.find? (· ∉ self.completed) with
  | none => (.ok none, self)
  | some taskId =>
    match self.tasks.get? taskId with
    | none => (.error (.keyError taskId), self)
    | some task =>
      let delivered := { task with deliveryAttempt := task.deliveryAttempt + 1 }
      (.ok (some delivered), { self with tasks := self.tasks.set taskId delivered })

def complete (taskId : String) : InMemoryTaskQueue :=
  { self with completed := insert taskId self.completed }

end InMemoryTaskQueue

structure SimulatedTicketExecutor where
  executions : Dict String ToolExecutionResult := .empty

namespace SimulatedTicketExecutor
variable (self : SimulatedTicketExecutor)

/-- The record a task gets when its key is new. -/
def ticketRecord (task : ExecutionTask) (proposal : ToolActionProposal) (now : Datetime) :
    ToolExecutionResult :=
  let executionHash := canonicalDigest (.obj [("idempotencyKey", .str task.idempotencyKey),
    ("proposalDigest", .str proposal.proposalDigest)])
  { executionId := "execution-" ++ slice 16 executionHash
    ticketId := "LOCAL-" ++ (slice 12 executionHash).toUpper
    executedAt := now
    idempotencyKey := task.idempotencyKey
    proposalDigest := proposal.proposalDigest }

def execute (task : ExecutionTask) (proposal : ToolActionProposal) (now : Datetime) :
    Except Failure ToolExecutionResult × SimulatedTicketExecutor :=
  match self.executions.get? task.idempotencyKey with
  | some existing =>
    if existing.proposalDigest ≠ proposal.proposalDigest then
      (.error (.application .idempotencyConflict
        "The execution key is already bound to another proposal."), self)
    else (.ok existing, self)
  | none =>
    let result := ticketRecord task proposal now
    (.ok result, { executions := self.executions.set task.idempotencyKey result })

end SimulatedTicketExecutor

end AgenticDelivery.Api
