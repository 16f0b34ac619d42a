import AgenticDelivery.Api.Runs
import AgenticDelivery.Atomic.Alone

/-! # The ends of a call

A call that nobody interrupts, from a consistent state, ends in one of the ways
`Exit` lists: under which conditions, with which answer, what the stores hold
afterwards, and the outcomes of the audit events it has recorded. The clock is
read before each operation; `clock n` is what it shows at the `n`-th one. -/
namespace AgenticDelivery.Api
open AgenticDelivery.Atomic AgenticDelivery.Data AgenticDelivery.Governance AgenticDelivery.Runtime
open Service Program

/-! ## What a call looks at -/

def Call.correlationId : Call → String
  | .create request => request.correlationId
  | .get _ _ correlationId | .plan _ _ correlationId | .decideApproval _ _ _ _ _ correlationId
  | .processNextTask _ correlationId => correlationId

def Principal.MayRead (p : Principal) (w : Workflow) : Prop :=
  w.ownerId = p.subject ∨ p.roles ∩ {.reviewer, .operator, .administrator} ≠ ∅

/-- The policy's answer on the intake of a request. -/
def CreateRequest.decision (r : CreateRequest) (env : Environment) : PolicyDecision :=
  env.policy (r.intakeContext (env.classifier (normalizeRequest r.request) r.declaredCategories))

/-- The stored workflow has the text and the locale of the request. -/
def CreateRequest.Matches (r : CreateRequest) (env : Environment) (w : Workflow) : Prop :=
  w.request = normalizeRequest r.request ∧ w.requestedLocale = env.lower r.requestedLocale

/-- What `denyProcessing` raises. -/
def refusal (decision : PolicyDecision) : Failure :=
  match decision.reasons.head? with
  | some reason => .application .dataProcessingDenied reason
  | none => .indexError "tuple index out of range"

/-- The workflow is there, within the reach of the planner, and has no plan. -/
structure Unplanned (s : State) (p : Principal) (id : String) (w : Workflow) : Prop where
  stored : s.stored id = some w
  may : p.MayPlan w
  unplanned : w.planningResult = none

/-- The workflow waits for a decision of the principal. -/
structure Undecided (s : State) (p : Principal) (id : String) (w : Workflow)
    (proposal : ToolActionProposal) : Prop where
  stored : s.stored id = some w
  may : p.MayDecide w
  undecided : w.approvalDecision = none
  status : w.status = .awaitingApproval
  proposal : w.actionProposal = some proposal

/-- The workflow has a decision already. -/
structure DecidedBefore (s : State) (p : Principal) (id : String) (w : Workflow)
    (approval : ApprovalDecision) : Prop where
  stored : s.stored id = some w
  may : p.MayDecide w
  decided : w.approvalDecision = some approval

/-- The next delivery is the task `task` of the workflow `w`, here with the count of
this delivery. -/
structure NextTask (s : State) (p : Principal) (task : ExecutionTask) (w : Workflow) : Prop where
  may : p.MayProcess
  head : s.taskQueue.pending.head? = some task.taskId
  queued : ∃ t, s.taskQueue.tasks.get? task.taskId = some t ∧
    task = { t with deliveryAttempt := t.deliveryAttempt + 1 }
  stored : s.stored task.workflowId = some w
  tasked : Tasked w task

/-- The task of the workflow is bound to another proposal in the queue. -/
def State.Misbound (s : State) (task : ExecutionTask) : Prop :=
  ∃ t, s.taskQueue.tasks.get? task.taskId = some t ∧ t.proposalDigest ≠ task.proposalDigest

/-! ## What a call leaves behind -/

/-- The queue after the decision `d` on the proposal of `task`. -/
def State.queueOn (s : State) (d : Decision) (task : ExecutionTask) : State :=
  match d with
  | .approved => { s with taskQueue := (s.taskQueue.enqueue task).2 }
  | .rejected => s

def State.claim (s : State) (task : ExecutionTask) : State :=
  { s with taskQueue := { s.taskQueue with tasks := s.taskQueue.tasks.set task.taskId task } }

def State.retire (s : State) (task : ExecutionTask) : State :=
  { s with taskQueue := s.taskQueue.complete task.taskId }

def State.ticket (s : State) (task : ExecutionTask) (proposal : ToolActionProposal)
    (now : Datetime) : State :=
  { s with toolExecutor := (s.toolExecutor.execute task proposal now).2 }

theorem completeExecution_workflowId {w w' : Workflow} {result : ToolExecutionResult}
    {now : Datetime} (h : w.completeExecution result now = .ok w') :
    w'.workflowId = w.workflowId := by
  obtain ⟨_, -, rfl⟩ := completeExecution_ok h
  rfl

/-- The stores of two states are the same. -/
structure SameStores (s s' : State) : Prop where
  repository : s'.repository = s.repository
  taskQueue : s'.taskQueue = s.taskQueue
  toolExecutor : s'.toolExecutor = s.toolExecutor

/-- From `audit` to `audit'` the call has recorded events of its own subject and
correlation id, with these outcomes. -/
def Audited (call : Call) (audit audit' : List AuditEvent) (outcomes : List String) : Prop :=
  ∃ events, audit' = audit ++ events ∧ events.map AuditEvent.outcome = outcomes ∧
    ∀ e ∈ events, e.subject = some call.principal.subject ∧ e.correlationId = call.correlationId

/-- The error of an `enqueue` whose identifier has another proposal. -/
def misboundTask : Failure :=
  .application .idempotencyConflict "The task identifier is already bound to another proposal."

section Queue
variable {s : State} {task t : ExecutionTask}

theorem enqueue_misbound (h : s.Misbound task) :
    s.taskQueue.enqueue task = (.error misboundTask, s.taskQueue) := by
  obtain ⟨t, ht, hd⟩ := h
  simp only [InMemoryTaskQueue.enqueue, ht, ne_eq, hd, not_false_eq_true, if_true, misboundTask]

theorem enqueue_same (ht : s.taskQueue.tasks.get? task.taskId = some t)
    (hd : t.proposalDigest = task.proposalDigest) :
    s.taskQueue.enqueue task = (.ok t, s.taskQueue) := by
  simp only [InMemoryTaskQueue.enqueue, ht, ne_eq, hd, not_true_eq_false, if_false]

theorem enqueue_new (ht : s.taskQueue.tasks.get? task.taskId = none) :
    s.taskQueue.enqueue task = (.ok task, { s.taskQueue with
      tasks := s.taskQueue.tasks.set task.taskId task
      order := s.taskQueue.order ++ [task.taskId] }) := by
  simp only [InMemoryTaskQueue.enqueue, ht]

@[simp] theorem queueOn_repository (d : Decision) :
    (s.queueOn d task).repository = s.repository := by
  cases d <;> rfl

@[simp] theorem queueOn_toolExecutor (d : Decision) :
    (s.queueOn d task).toolExecutor = s.toolExecutor := by
  cases d <;> rfl

theorem queueOn_stored (d : Decision) (id : String) :
    (s.queueOn d task).stored id = s.stored id := by
  rw [State.stored, queueOn_repository]

theorem queueOn_misbound (h : s.Misbound task) (d : Decision) : s.queueOn d task = s := by
  cases d with
  | rejected => rfl
  | approved => rw [State.queueOn, enqueue_misbound h]

/-- A task that is there is not enqueued again. -/
theorem queueOn_same (ht : s.taskQueue.tasks.get? task.taskId = some t)
    (hd : t.proposalDigest = task.proposalDigest) (d : Decision) : s.queueOn d task = s := by
  cases d with
  | rejected => rfl
  | approved => rw [State.queueOn, enqueue_same ht hd]

/-- An enqueued task has its digest in the queue. -/
theorem queueOn_clear (h : ¬s.Misbound task) :
    ∃ t, (s.queueOn .approved task).taskQueue.tasks.get? task.taskId = some t ∧
      t.proposalDigest = task.proposalDigest := by
  cases ht : s.taskQueue.tasks.get? task.taskId with
  | none =>
    rw [State.queueOn, enqueue_new ht]
    exact ⟨task, Dict.get?_set_self .., rfl⟩
  | some t =>
    have hd : t.proposalDigest = task.proposalDigest := by
      by_contra hne
      exact h ⟨t, ht, hne⟩
    rw [queueOn_same ht hd]
    exact ⟨t, ht, hd⟩

theorem enqueue_clear (h : ¬s.Misbound task) : ∃ t, (s.taskQueue.enqueue task).1 = .ok t := by
  cases ht : s.taskQueue.tasks.get? task.taskId with
  | none => exact ⟨task, by rw [enqueue_new ht]⟩
  | some t =>
    have hd : t.proposalDigest = task.proposalDigest := by
      by_contra hne
      exact h ⟨t, ht, hne⟩
    exact ⟨t, by rw [enqueue_same ht hd]⟩

end Queue

/-! ## The ends -/

open WorkflowService in
/-- The ends of a call, from the stores of `s`. -/
inductive Exit (env : Environment) (clock : Nat → Datetime × Datetime) (s : State) :
    Call → Except Failure Workflow → State → List String → Prop
  | createDenied {r} (role : r.principal.roles ∩ {.requester, .administrator} = ∅) :
      Exit env clock s (.create r) (.error (.application .permissionDenied
        "The current role cannot create service requests.")) s ["denied"]
  | overlayUnavailable {r} (role : r.principal.roles ∩ {.requester, .administrator} ≠ ∅)
      (overlay : r.overlayIds.toFinset ≠ {"common-us-baseline"}) :
      Exit env clock s (.create r) (.error (.application .complianceOverlayUnavailable
        "Only the reviewed common-us-baseline overlay is active in this phase.")) s []
  | intakeRefused {r} (role : r.principal.roles ∩ {.requester, .administrator} ≠ ∅)
      (overlay : r.overlayIds.toFinset = {"common-us-baseline"})
      (refused : (r.decision env).executionAllowed = false) :
      Exit env clock s (.create r) (.error (refusal (r.decision env))) s
        [(r.decision env).outcome.value]
  | createConflict {r id w} (admitted : r.Admitted env)
      (bound : s.bound r.principal.subject r.idempotencyKey = some id)
      (stored : s.stored id = some w)
      (other : ¬r.Matches env w) :
      Exit env clock s (.create r) (.error keyConflict) s [(r.decision env).outcome.value]
  | createReplayed {r id w} (admitted : r.Admitted env)
      (bound : s.bound r.principal.subject r.idempotencyKey = some id)
      (stored : s.stored id = some w)
      (same : r.Matches env w) :
      Exit env clock s (.create r) (.ok w) s [(r.decision env).outcome.value, "accepted"]
  | created {r} (admitted : r.Admitted env)
      (unbound : s.bound r.principal.subject r.idempotencyKey = none) :
      Exit env clock s (.create r)
        (.ok (r.received env (env.idFactory s.issued.length) (clock 4).2))
        (s.insert (r.received env (env.idFactory s.issued.length) (clock 4).2) r.idempotencyKey)
        [(r.decision env).outcome.value, "accepted"]
  | readHidden {p id correlationId} (hidden : ∀ w, s.stored id = some w → ¬p.MayRead w) :
      Exit env clock s (.get p id correlationId) (.error (.application .workflowNotFound
        "The workflow does not exist or is not accessible.")) s ["not_found"]
  | read {p id correlationId w} (stored : s.stored id = some w) (may : p.MayRead w) :
      Exit env clock s (.get p id correlationId) (.ok w) s ["allowed"]
  | planHidden {p id correlationId} (hidden : ∀ w, s.stored id = some w → ¬p.MayPlan w) :
      Exit env clock s (.plan p id correlationId) (.error (.application .workflowNotFound
        "The workflow does not exist or is not accessible.")) s ["not_found"]
  | planReplayed {p id correlationId w} (stored : s.stored id = some w) (may : p.MayPlan w)
      (planned : w.planningResult ≠ none) : Exit env clock s (.plan p id correlationId) (.ok w) s []
  | planningRefused {p id correlationId w} (opened : Unplanned s p id w)
      (refused : (env.policy (planningContext w.processingContext)).executionAllowed = false) :
      Exit env clock s (.plan p id correlationId)
        (.error (refusal (env.policy (planningContext w.processingContext)))) s
        [(env.policy (planningContext w.processingContext)).outcome.value]
  | injectionRejected {p id correlationId w message} (opened : Unplanned s p id w)
      (allowed : (env.policy (planningContext w.processingContext)).executionAllowed = true)
      (answer : env.runtime s.runtimeCalls (planningInput w correlationId) =
        .error (.promptInjectionBlocked message)) :
      Exit env clock s (.plan p id correlationId)
        (.error (.application .promptInjectionRejected message)) s
        [(env.policy (planningContext w.processingContext)).outcome.value, "blocked"]
  | gateRejected {p id correlationId w result} (opened : Unplanned s p id w)
      (allowed : (env.policy (planningContext w.processingContext)).executionAllowed = true)
      (answer : env.runtime s.runtimeCalls (planningInput w correlationId) =
        .error (.evaluationGateBlocked result)) :
      Exit env clock s (.plan p id correlationId) (.error (.application .evaluationGateRejected
        "The deterministic evaluation gate did not pass.")) s
        [(env.policy (planningContext w.processingContext)).outcome.value, "failed"]
  | runtimeFailed {p id correlationId w message} (opened : Unplanned s p id w)
      (allowed : (env.policy (planningContext w.processingContext)).executionAllowed = true)
      (answer : env.runtime s.runtimeCalls (planningInput w correlationId) =
        .error (.other message)) :
      Exit env clock s (.plan p id correlationId) (.error (.runtime message)) s
        [(env.policy (planningContext w.processingContext)).outcome.value]
  | planned {p id correlationId w result} (opened : Unplanned s p id w)
      (allowed : (env.policy (planningContext w.processingContext)).executionAllowed = true)
      (answer : env.runtime s.runtimeCalls (planningInput w correlationId) = .ok result) {w'}
      (stored : w' = w.applyPlanningResult result (env.policy (planningContext w.processingContext))
        (createToolProposal env.ticketSchema w.workflowId result (clock 4).1) (clock 5).2) :
      Exit env clock s (.plan p id correlationId) (.ok w') (s.put w')
        [(env.policy (planningContext w.processingContext)).outcome.value, "evaluated"]
  | decideDenied {p id d reason key correlationId}
      (role : p.roles ∩ {.reviewer, .administrator} = ∅) :
      Exit env clock s (.decideApproval p id d reason key correlationId)
        (.error (.application .permissionDenied
          "The current role cannot decide approval requests.")) s ["denied"]
  | decideMissing {p id d reason key correlationId}
      (role : p.roles ∩ {.reviewer, .administrator} ≠ ∅) (missing : s.stored id = none) :
      Exit env clock s (.decideApproval p id d reason key correlationId)
        (.error (.application .workflowNotFound
          "The workflow does not exist or is not accessible.")) s []
  | selfApproval {p id d reason key correlationId w}
      (role : p.roles ∩ {.reviewer, .administrator} ≠ ∅) (stored : s.stored id = some w)
      (own : w.ownerId = p.subject) :
      Exit env clock s (.decideApproval p id d reason key correlationId)
        (.error (.application .permissionDenied
          "A requester cannot approve their own workflow.")) s ["self_approval_denied"]
  | decidedByOther {p id d reason key correlationId w approval}
      (closed : DecidedBefore s p id w approval) (other : approval.idempotencyKey ≠ key) :
      Exit env clock s (.decideApproval p id d reason key correlationId)
        (.error (.application .invalidWorkflowState
          "The approval request has already been decided.")) s []
  | decidedOtherwise {p id d reason key correlationId w approval}
      (closed : DecidedBefore s p id w approval) (same : approval.idempotencyKey = key)
      (other : approval.decision ≠ d) :
      Exit env clock s (.decideApproval p id d reason key correlationId)
        (.error (.application .idempotencyConflict
          "The idempotency key was already used for another approval decision.")) s []
  | decisionReplayed {p id d reason key correlationId w approval proposal}
      (closed : DecidedBefore s p id w approval) (same : approval.idempotencyKey = key)
      (decision : approval.decision = d) (proposal_ : w.actionProposal = some proposal)
      (clear : d = .approved →
        ¬s.Misbound (createExecutionTask w.workflowId proposal.proposalDigest)) :
      Exit env clock s (.decideApproval p id d reason key correlationId) (.ok w)
        (s.queueOn d (createExecutionTask w.workflowId proposal.proposalDigest)) []
  | replayMisbound {p id reason key correlationId w approval proposal}
      (closed : DecidedBefore s p id w approval) (same : approval.idempotencyKey = key)
      (decision : approval.decision = .approved) (proposal_ : w.actionProposal = some proposal)
      (misbound : s.Misbound (createExecutionTask w.workflowId proposal.proposalDigest)) :
      Exit env clock s (.decideApproval p id .approved reason key correlationId)
        (.error misboundTask) s []
  | notPending {p id d reason key correlationId w} (stored : s.stored id = some w)
      (may : p.MayDecide w) (undecided : w.approvalDecision = none)
      (status : w.status ≠ .awaitingApproval) :
      Exit env clock s (.decideApproval p id d reason key correlationId)
        (.error (.application .invalidWorkflowState "Only a pending proposal can be decided.")) s []
  | proposalExpired {p id d reason key correlationId w proposal}
      (opened : Undecided s p id w proposal) (late : proposal.expiresAt < (clock 1).1) :
      Exit env clock s (.decideApproval p id d reason key correlationId)
        (.error (.application .approvalExpired "The proposal expired before it could be decided."))
        (s.put (w.expire (clock 1).1)) ["expired"]
  | decided {p id d reason key correlationId w proposal} (opened : Undecided s p id w proposal)
      (inTime : (clock 1).1 ≤ proposal.expiresAt)
      (clear : d = .approved →
        ¬s.Misbound (createExecutionTask w.workflowId proposal.proposalDigest)) {w'}
      (stored : w' = w.recordApproval (createApprovalDecision proposal p.subject d reason key
        (clock 1).1) (clock 1).1) :
      Exit env clock s (.decideApproval p id d reason key correlationId) (.ok w')
        ((s.put w').queueOn d (createExecutionTask w.workflowId proposal.proposalDigest)) [d.value]
  | decidedMisbound {p id reason key correlationId w proposal}
      (opened : Undecided s p id w proposal) (inTime : (clock 1).1 ≤ proposal.expiresAt)
      (misbound : s.Misbound (createExecutionTask w.workflowId proposal.proposalDigest)) {w'}
      (stored : w' = w.recordApproval (createApprovalDecision proposal p.subject .approved reason
        key (clock 1).1) (clock 1).1) :
      Exit env clock s (.decideApproval p id .approved reason key correlationId)
        (.error misboundTask) (s.put w') []
  | processDenied {p correlationId} (role : ¬p.MayProcess) :
      Exit env clock s (.processNextTask p correlationId) (.error (.application .permissionDenied
        "The current role cannot process execution tasks.")) s ["denied"]
  | nothingPending {p correlationId} (may : p.MayProcess) (empty : s.taskQueue.pending = []) :
      Exit env clock s (.processNextTask p correlationId) (.error (.application .noPendingTask
        "No approved execution task is waiting.")) s []
  | redelivered {p correlationId task w} (next : NextTask s p task w)
      (status : w.status = .completed) :
      Exit env clock s (.processNextTask p correlationId) (.ok w) ((s.claim task).retire task) []
  | deliveredStale {p correlationId task w} (next : NextTask s p task w)
      (status : w.status = .expired) :
      Exit env clock s (.processNextTask p correlationId) (.error (.application
        .invalidWorkflowState "Only approved work can be executed.")) (s.claim task) []
  | approvalExpired {p correlationId task w approval} (next : NextTask s p task w)
      (status : w.status = .approved) (approval_ : w.approvalDecision = some approval)
      (late : approval.expiresAt < (clock 2).1) :
      Exit env clock s (.processNextTask p correlationId) (.error (.application .approvalExpired
        "The approval expired before task execution."))
        (((s.claim task).put (w.expire (clock 2).1)).retire task) ["approval_expired"]
  | executionRefused {p correlationId task w approval} (next : NextTask s p task w)
      (status : w.status = .approved) (approval_ : w.approvalDecision = some approval)
      (inTime : (clock 2).1 ≤ approval.expiresAt)
      (refused : (env.policy (executionContext w.processingContext)).executionAllowed = false) :
      Exit env clock s (.processNextTask p correlationId)
        (.error (refusal (env.policy (executionContext w.processingContext)))) (s.claim task)
        [(env.policy (executionContext w.processingContext)).outcome.value]
  | executed {p correlationId task w approval proposal} (next : NextTask s p task w)
      (status : w.status = .approved) (approval_ : w.approvalDecision = some approval)
      (inTime : (clock 2).1 ≤ approval.expiresAt)
      (allowed : (env.policy (executionContext w.processingContext)).executionAllowed = true)
      (proposal_ : w.actionProposal = some proposal) {w' result w''}
      (started : w' = w.beginExecution (env.policy (executionContext w.processingContext))
        (executionContext w.processingContext) (clock 2).1)
      (ticket : (s.toolExecutor.execute task proposal (clock 2).1).1 = .ok result)
      (completed : w'.completeExecution result (clock 2).1 = .ok w'') :
      Exit env clock s (.processNextTask p correlationId) (.ok w'')
        (((((s.claim task).put w').ticket task proposal (clock 2).1).put w'').retire task)
        [(env.policy (executionContext w.processingContext)).outcome.value, "completed"]
  | resumed {p correlationId task w proposal} (next : NextTask s p task w)
      (status : w.status = .executing) (proposal_ : w.actionProposal = some proposal) {result w'}
      (ticket : (s.toolExecutor.execute task proposal (clock 2).1).1 = .ok result)
      (completed : w.completeExecution result (clock 2).1 = .ok w') :
      Exit env clock s (.processNextTask p correlationId) (.ok w')
        ((((s.claim task).ticket task proposal (clock 2).1).put w').retire task) ["completed"]

end AgenticDelivery.Api
