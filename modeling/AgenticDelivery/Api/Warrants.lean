import AgenticDelivery.Api.Calls
import AgenticDelivery.Atomic.Judgment

/-! # What stands behind an audit event

A call records an event when it has seen enough to say so, it announces what it
has stored before it ends, and the errors it raises are those of the application.
All of this is in the text of the methods, given what the ports may answer. -/
namespace AgenticDelivery.Api
open AgenticDelivery.Atomic AgenticDelivery.Data AgenticDelivery.Governance AgenticDelivery.Runtime
open Service Program

/-! ## Events and what bears them out -/

/-- What a call says to the audit sink. -/
structure Note where
  action : String
  outcome : String
  subject : Option String
  resourceId : Option String
  correlationId : String
  deriving DecidableEq

def AuditEvent.note (e : AuditEvent) : Note :=
  ⟨e.action, e.outcome, e.subject, e.resourceId, e.correlationId⟩

/-- The note of a call under its own subject and correlation id. -/
def Call.note (call : Call) (action outcome : String) (resourceId : Option String) : Note :=
  ⟨action, outcome, some call.principal.subject, resourceId, call.correlationId⟩

/-- All that the service records, by the call that records it: the action, the
outcome, the resource, and what is the case then. `known` are the workflows the call
has seen or stored, `absent` the ids it has looked up in vain. -/
inductive Borne (env : Environment) (known : Workflow → Prop) (absent : String → Prop) :
    Call → String → String → Option String → Prop
  | createDenied {r} (role : r.principal.roles ∩ {.requester, .administrator} = ∅) :
      Borne env known absent (.create r) "workflow.create" "denied" none
  | intake {r} (role : r.principal.roles ∩ {.requester, .administrator} ≠ ∅)
      (overlay : r.overlayIds.toFinset = {"common-us-baseline"}) :
      Borne env known absent (.create r) "data_processing.workflow_intake"
        (r.decision env).outcome.value none
  | accepted {r w} (admitted : r.Admitted env) (stored : known w)
      (owner : w.ownerId = r.principal.subject) (same : r.Matches env w) :
      Borne env known absent (.create r) "workflow.create" "accepted" (some w.workflowId)
  | readHidden {p id correlationId}
      (hidden : absent id ∨ ∃ w, known w ∧ w.workflowId = id ∧ ¬p.MayRead w) :
      Borne env known absent (.get p id correlationId) "workflow.read" "not_found" (some id)
  | read {p w correlationId} (stored : known w) (may : p.MayRead w) :
      Borne env known absent (.get p w.workflowId correlationId) "workflow.read" "allowed"
        (some w.workflowId)
  | planHidden {p id correlationId}
      (hidden : absent id ∨ ∃ w, known w ∧ w.workflowId = id ∧ ¬p.MayPlan w) :
      Borne env known absent (.plan p id correlationId) "workflow.plan" "not_found" (some id)
  | planning {p w correlationId} (stored : known w) (may : p.MayPlan w)
      (status : w.status = .received) :
      Borne env known absent (.plan p w.workflowId correlationId) "data_processing.agent_planning"
        (env.policy (planningContext w.processingContext)).outcome.value (some w.workflowId)
  | injection {p w correlationId n message} (stored : known w) (may : p.MayPlan w)
      (answer : env.runtime n (WorkflowService.planningInput w correlationId) =
        .error (.promptInjectionBlocked message)) :
      Borne env known absent (.plan p w.workflowId correlationId) "guardrail.input" "blocked"
        (some w.workflowId)
  | gate {p w correlationId n result} (stored : known w) (may : p.MayPlan w)
      (answer : env.runtime n (WorkflowService.planningInput w correlationId) =
        .error (.evaluationGateBlocked result)) :
      Borne env known absent (.plan p w.workflowId correlationId) "evaluation.planning_gate"
        "failed" (some w.workflowId)
  | planned {p w result correlationId} (stored : known w) (may : p.MayPlan w)
      (plan : w.planningResult = some result) :
      Borne env known absent (.plan p w.workflowId correlationId) "workflow.plan" "evaluated"
        (some w.workflowId)
  | decideDenied {p id d reason key correlationId}
      (role : p.roles ∩ {.reviewer, .administrator} = ∅) :
      Borne env known absent (.decideApproval p id d reason key correlationId)
        "workflow.approval" "denied" none
  | selfApproval {p w d reason key correlationId} (stored : known w)
      (owner : w.ownerId = p.subject) :
      Borne env known absent (.decideApproval p w.workflowId d reason key correlationId)
        "workflow.approval" "self_approval_denied" (some w.workflowId)
  | proposalExpired {p w d reason key correlationId} (stored : known w) (may : p.MayDecide w)
      (status : w.status = .expired) (undecided : w.approvalDecision = none) :
      Borne env known absent (.decideApproval p w.workflowId d reason key correlationId)
        "workflow.approval" "expired" (some w.workflowId)
  | decided {p w d reason key correlationId approval} (stored : known w) (may : p.MayDecide w)
      (decided : w.approvalDecision = some approval) (decision : approval.decision = d)
      (reviewer : approval.reviewerId = p.subject) (grounds : approval.reason = reason) :
      Borne env known absent (.decideApproval p w.workflowId d reason key correlationId)
        "workflow.approval" d.value (some w.workflowId)
  | processDenied {p correlationId} (role : p.roles ∩ {.operator, .administrator} = ∅) :
      Borne env known absent (.processNextTask p correlationId) "task.process" "denied" none
  | approvalExpired {p w correlationId approval} (stored : known w) (may : p.MayProcess)
      (status : w.status = .expired) (decided : w.approvalDecision = some approval) :
      Borne env known absent (.processNextTask p correlationId) "task.process" "approval_expired"
        (some w.workflowId)
  | execution {p w correlationId} (stored : known w) (may : p.MayProcess)
      (status : w.status = .approved) :
      Borne env known absent (.processNextTask p correlationId) "data_processing.tool_execution"
        (env.policy (executionContext w.processingContext)).outcome.value (some w.workflowId)
  | completed {p w correlationId result} (stored : known w) (may : p.MayProcess)
      (status : w.status = .completed) (ticket : w.executionResult = some result) :
      Borne env known absent (.processNextTask p correlationId) "task.process" "completed"
        (some w.workflowId)

section Borne
variable {env : Environment} {known known' : Workflow → Prop} {absent absent' : String → Prop}
  {call : Call} {action outcome : String} {resourceId : Option String}

/-- What bears an event out need only be known later on. -/
theorem Borne.mono (hk : ∀ w, known w → known' w) (ha : ∀ id, absent id → absent' id)
    (h : Borne env known absent call action outcome resourceId) :
    Borne env known' absent' call action outcome resourceId := by
  have hidden : ∀ {id} {P : Workflow → Prop},
      (absent id ∨ ∃ w, known w ∧ w.workflowId = id ∧ ¬P w) →
        absent' id ∨ ∃ w, known' w ∧ w.workflowId = id ∧ ¬P w := by
    rintro id P (h | ⟨w, hw, hp⟩)
    · exact .inl (ha id h)
    · exact .inr ⟨w, hk w hw, hp⟩
  cases h with
  | createDenied role => exact .createDenied role
  | intake role overlay => exact .intake role overlay
  | accepted admitted stored owner same => exact .accepted admitted (hk _ stored) owner same
  | readHidden h => exact .readHidden (hidden h)
  | read stored may => exact .read (hk _ stored) may
  | planHidden h => exact .planHidden (hidden h)
  | planning stored may status => exact .planning (hk _ stored) may status
  | injection stored may answer => exact .injection (hk _ stored) may answer
  | gate stored may answer => exact .gate (hk _ stored) may answer
  | planned stored may plan => exact .planned (hk _ stored) may plan
  | decideDenied role => exact .decideDenied role
  | selfApproval stored owner => exact .selfApproval (hk _ stored) owner
  | proposalExpired stored may status undecided =>
    exact .proposalExpired (hk _ stored) may status undecided
  | decided stored may decided decision reviewer grounds =>
    exact .decided (hk _ stored) may decided decision reviewer grounds
  | processDenied role => exact .processDenied role
  | approvalExpired stored may status decided =>
    exact .approvalExpired (hk _ stored) may status decided
  | execution stored may status => exact .execution (hk _ stored) may status
  | completed stored may status ticket => exact .completed (hk _ stored) may status ticket

end Borne

/-! ## Logs -/

@[simp] def noteOf : CallEvent → Option Note
  | ⟨.auditRecord action outcome subject resourceId correlationId, _⟩ =>
    some ⟨action, outcome, subject, resourceId, correlationId⟩
  | _ => none

/-- The notes of a call. -/
def notes (log : List CallEvent) : List Note := log.filterMap noteOf

/-- What the sink is owed for a stored version of a workflow: an action and its outcome. -/
def Workflow.announcement (w : Workflow) : String × String :=
  match w.status with
  | .received => ("workflow.create", "accepted")
  | .awaitingApproval => ("workflow.plan", "evaluated")
  | .approved => ("workflow.approval", "approved")
  | .rejected => ("workflow.approval", "rejected")
  | .expired =>
    if w.approvalDecision = none then ("workflow.approval", "expired")
    else ("task.process", "approval_expired")
  | .executing =>
    ("data_processing.tool_execution",
      (w.governanceDecisions.getLast?.map (·.outcome.value)).getD "")
  | .completed => ("task.process", "completed")
  | _ => ("", "")

@[simp] def dueOf : CallEvent → Option (String × String × String)
  | ⟨.repositoryCreate _ _, .ok w⟩ => some ("workflow.create", "accepted", w.workflowId)
  | ⟨.repositoryUpdate _ _, .ok w⟩ =>
    some (w.announcement.1, w.announcement.2, w.workflowId)
  | _ => none

/-- What the sink is owed for all that a call has stored: action, outcome, resource. -/
def dues (log : List CallEvent) : List (String × String × String) := log.filterMap dueOf

@[simp] def knownOf : CallEvent → Option Workflow
  | ⟨.repositoryCreate _ _, .ok w⟩ => some w
  | ⟨.repositoryGet _, some w⟩ => some w
  | ⟨.repositoryUpdate _ _, .ok w⟩ => some w
  | _ => none

/-- The workflows a call has seen or stored. -/
def seen (log : List CallEvent) : List Workflow := log.filterMap knownOf

@[simp] def missedOf : CallEvent → Option String
  | ⟨.repositoryGet id, none⟩ => some id
  | _ => none

/-- The ids a call has looked up in vain. -/
def missed (log : List CallEvent) : List String := log.filterMap missedOf

section Views
variable (l l' : List CallEvent) (e : CallEvent)

@[simp] theorem notes_append : notes (l ++ l') = notes l ++ notes l' := List.filterMap_append

@[simp] theorem notes_nil : notes [] = [] := rfl

@[simp] theorem notes_cons : notes (e :: l) = (noteOf e).toList ++ notes l := by
  simp only [notes, List.filterMap_cons]
  cases noteOf e <;> rfl

@[simp] theorem dues_append : dues (l ++ l') = dues l ++ dues l' := List.filterMap_append

@[simp] theorem dues_nil : dues [] = [] := rfl

@[simp] theorem dues_cons : dues (e :: l) = (dueOf e).toList ++ dues l := by
  simp only [dues, List.filterMap_cons]
  cases dueOf e <;> rfl

@[simp] theorem seen_append : seen (l ++ l') = seen l ++ seen l' := List.filterMap_append

@[simp] theorem seen_nil : seen [] = [] := rfl

@[simp] theorem seen_cons : seen (e :: l) = (knownOf e).toList ++ seen l := by
  simp only [seen, List.filterMap_cons]
  cases knownOf e <;> rfl

@[simp] theorem missed_append : missed (l ++ l') = missed l ++ missed l' := List.filterMap_append

@[simp] theorem missed_nil : missed [] = [] := rfl

@[simp] theorem missed_cons : missed (e :: l) = (missedOf e).toList ++ missed l := by
  simp only [missed, List.filterMap_cons]
  cases missedOf e <;> rfl

end Views

/-! ## The rules -/

def Failure.Application : Failure → Prop
  | .application .. => True
  | _ => False

/-- What the ports of a consistent service may answer. -/
def Answer (env : Environment) : (op : Op) → Reply op → Prop
  | .repositoryCreate w _, .ok v => v.ownerId = w.ownerId ∧ SameRequest v w
  | .repositoryCreate _ _, .error e => e.Application
  | .repositoryGet id, r => ∀ w, r = some w → w.workflowId = id
  | .repositoryUpdate w _, .ok v => v = w
  | .repositoryUpdate _ _, .error e => e = staleUpdate
  | .runtimePlan planningInput, r => ∃ n, r = env.runtime n planningInput
  | .classify text declared, r => r = env.classifier text declared
  | .evaluate context, r => r = env.policy context
  | .enqueue _, r => ∀ e, r = .error e → e = misboundTask
  | .claimNext, r => ∃ task, r = .ok task
  | .execute _ _ _, r => ∃ result, r = .ok result
  | _, _ => True

/-- What the call has stored is noted or still owed, unless the queue refused its task. -/
def Owes (call : Call) (log : List CallEvent) (owed : List (String × String × String)) : Prop :=
  (∃ task e, (⟨.enqueue task, .error e⟩ : CallEvent) ∈ log) ∨
    ∀ d ∈ dues log, d ∈ owed ∨ call.note d.1 d.2.1 (some d.2.2) ∈ notes log

/-- The error of a policy that refuses without a reason, or of the runtime. -/
def Internal (env : Environment) (e : Failure) : Prop :=
  (∃ context, (env.policy context).executionAllowed = false ∧ (env.policy context).reasons = [] ∧
    e = .indexError "tuple index out of range") ∨
  ∃ n planningInput message, env.runtime n planningInput = .error (.other message) ∧
    e = .runtime message

/-- A call records what it has seen and enqueues the tasks of approved workflows it has
seen; it notes what it has stored, returns a workflow it has seen and its principal may
read, and raises errors of the application only, or those of its policy and its runtime. -/
def accounting (env : Environment) (call : Call) : Rules Op Reply Failure Workflow where
  may := Answer env
  fits
    | log, .auditRecord action outcome subject resourceId correlationId =>
      (⟨action, outcome, subject, resourceId, correlationId⟩ : Note) =
        call.note action outcome resourceId ∧
      Borne env (· ∈ seen log) (· ∈ missed log) call action outcome resourceId
    | log, .enqueue task => ∃ w ∈ seen log, Tasked w task
    | _, _ => True
  ends
    | log, .ok w => Owes call log [] ∧ w ∈ seen log ∧ call.principal.MayRead w
    | log, .error e => Owes call log [] ∧ (e.Application ∨ Internal env e)

end AgenticDelivery.Api
