import AgenticDelivery.Api.HttpObservations
import AgenticDelivery.Atomic.Bounded

/-! # Turns

No request waits for another. Each takes a bounded number of steps of its own, the same
whatever the others do, so one that is given its turns is answered, also when the others
have crashed half way. -/
namespace AgenticDelivery.Api
open AgenticDelivery.Atomic AgenticDelivery.Data AgenticDelivery.Governance AgenticDelivery.Runtime
open Program

variable {ν : Type} {u : Unicode} {mode : EnforcementMode} {env : Environment}
  {settings : ApiSettings} {durations : Durations ν}

/-! ## The operations of a call -/

/-- The most operations that a call of the service makes. -/
def Call.operations : Call → Nat
  | .create _ => 7
  | .get .. => 2
  | .plan .. => 8
  | .decideApproval .. => 5
  | .processNextTask .. => 10

namespace WorkflowService

theorem denyProcessing_within (decision : PolicyDecision) (n : Nat) :
    (denyProcessing decision).Within n := by
  unfold denyProcessing
  split <;> trivial

theorem create_within (r : CreateRequest) : (create env r).Within 7 := by
  refine .ite (fun _ => trivial) (.ite trivial ?_)
  intro profile decision _
  refine .ite (denyProcessing_within decision 4) ?_
  intro workflowId createdAt created
  exact .orRaise fun stored _ => trivial

theorem get_within (p : Principal) (id correlationId : String) :
    (get p id correlationId).Within 2 := by
  intro found
  cases found with
  | none => exact fun _ => trivial
  | some w => exact .ite (fun _ => trivial) fun _ => trivial

theorem plan_within (p : Principal) (id correlationId : String) :
    (plan env p id correlationId).Within 8 := by
  intro found
  cases found with
  | none => exact fun _ => trivial
  | some w =>
    refine .ite (fun _ => trivial) (.ite trivial (.ite trivial ?_))
    intro decision _
    refine .ite (denyProcessing_within decision 5) ?_
    intro planned
    cases planned with
    | ok result => exact fun _ _ stored => .orRaise fun _ _ => trivial
    | error error =>
      cases error with
      | other message => trivial
      | _ => exact fun _ => trivial

theorem enqueueApproved_within (decision : Decision) (w : Workflow)
    (proposal : ToolActionProposal) : (enqueueApproved decision w proposal).Within 1 := by
  cases decision with
  | approved => exact fun _ => .orRaise fun _ => trivial
  | rejected => trivial

theorem replayDecision_within (w : Workflow) (existing : ApprovalDecision) (decision : Decision)
    (key : String) : (replayDecision w existing decision key).Within 1 := by
  refine .ite trivial (.ite trivial ?_)
  cases w.actionProposal with
  | none => trivial
  | some proposal => exact (enqueueApproved_within decision w proposal).bind fun _ => trivial

theorem firstDecision_within (p : Principal) (id : String) (w : Workflow)
    (proposal : ToolActionProposal) (decision : Decision) (reason key correlationId : String) :
    (firstDecision p id w proposal decision reason key correlationId).Within 4 := by
  intro now
  refine .ite (fun updated => .orRaise fun _ _ => trivial) ?_
  intro updated
  refine .orRaise fun stored => (enqueueApproved_within decision w proposal).bind (n := 1) ?_
  exact fun _ _ => trivial

theorem decideApproval_within (p : Principal) (id : String) (decision : Decision)
    (reason key correlationId : String) :
    (decideApproval p id decision reason key correlationId).Within 5 := by
  refine .ite (fun _ => trivial) ?_
  intro found
  cases found with
  | none => trivial
  | some w =>
    refine .ite (fun _ => trivial) ?_
    cases w.approvalDecision with
    | some existing => exact (replayDecision_within w existing decision key).mono (by decide)
    | none =>
      cases w.actionProposal with
      | none => trivial
      | some proposal =>
        exact .ite trivial (firstDecision_within p id w proposal decision reason key correlationId)

theorem startExecution_within (task : ExecutionTask) (actor correlationId : String) (w : Workflow)
    (approval : ApprovalDecision) (now : Datetime) :
    (startExecution task actor correlationId w approval now).Within 3 := by
  refine .ite (fun updated => .orRaise fun _ _ _ => trivial) ?_
  intro governance _
  exact .ite (denyProcessing_within governance 1) fun updated => within_orRaise updated

theorem finishExecution_within (task : ExecutionTask) (actor correlationId : String)
    (proposal : ToolActionProposal) (now : Datetime) (w : Workflow) :
    (finishExecution task actor correlationId proposal now w).Within 4 := by
  intro result
  refine .orRaise fun result => .orRaise fun completed updated => ?_
  exact .orRaise fun stored _ _ => trivial

theorem deliverTask_within (task : ExecutionTask) (actor correlationId : String) (w : Workflow) :
    (deliverTask task actor correlationId w).Within 8 := by
  unfold deliverTask
  split
  · refine .ite trivial ?_
    intro now
    refine .ite ?_ (.ite trivial ((finishExecution_within _ _ _ _ _ _).mono (by decide)))
    exact (startExecution_within _ _ _ _ _ _).bind fun _ => finishExecution_within _ _ _ _ _ _
  · trivial

theorem executeTask_within (task : ExecutionTask) (actor correlationId : String) :
    (executeTask task actor correlationId).Within 9 := by
  intro found
  cases found with
  | none => trivial
  | some w =>
    dsimp only [Program.bind]
    split
    · exact .ite trivial fun _ => trivial
    · exact deliverTask_within task actor correlationId w

theorem processNextTask_within (p : Principal) (correlationId : String) :
    (processNextTask p correlationId).Within 10 := by
  refine .ite (fun _ => trivial) ?_
  intro claimed
  refine .orRaise fun claimed => ?_
  cases claimed with
  | none => trivial
  | some task => exact executeTask_within task p.subject correlationId

end WorkflowService

theorem Call.body_within (env : Environment) (call : Call) :
    (call.body env).Within call.operations := by
  cases call with
  | create r => exact WorkflowService.create_within r
  | get p id correlationId => exact WorkflowService.get_within p id correlationId
  | plan p id correlationId => exact WorkflowService.plan_within p id correlationId
  | decideApproval p id decision reason key correlationId =>
    exact WorkflowService.decideApproval_within p id decision reason key correlationId
  | processNextTask p correlationId => exact WorkflowService.processNextTask_within p correlationId

/-! ## The steps of a request -/

/-- The most steps that a request takes. -/
def Endpoint.steps : Endpoint → Nat
  | .createServiceRequest _ => 10
  | .planWorkflow _ => 11
  | .decideWorkflowApproval .. => 8
  | .processNextLocalTask => 13
  | .getWorkflow _ | .operationalMetrics | .auditEvents _ => 3
  | .framework .. | .health | .ready | .session => 1

theorem workflowResponse_within (statusCode : Int) (call : Call) :
    (workflowResponse env statusCode call : Http ν _).Within call.operations := by
  refine Within.mono (.bind (n := 0) (call.body_within env).inner fun w => ?_) (Nat.zero_add _).le
  exact .orRaise fun response => trivial

theorem mutationDependencies_within (request : HttpRequest ν) (generated : String) :
    (mutationDependencies request generated).Within 2 := by
  refine .orRaise fun principal => .orRaise fun correlation => .orRaise fun idempotency => ?_
  intro now allowed
  cases allowed <;> trivial

theorem withPayload_within {α β : Type} {payload : Payload α} {dependencies : Http ν β}
    {endpoint : α → β → Http ν (Int × Body ν)} {m n : Nat} (hd : dependencies.Within m)
    (he : ∀ value given, (endpoint value given).Within n) :
    (withPayload payload dependencies endpoint).Within (n + m) := by
  cases payload with
  | unreadable => trivial
  | invalid => exact hd.bind fun _ => within_raise _
  | valid value => exact hd.bind (he value)

theorem callEndpoint_within (request : HttpRequest ν) (generated : String) :
    (callEndpoint env settings request generated).Within (request.endpoint.steps - 1) := by
  have hdeps := mutationDependencies_within request generated
  unfold callEndpoint
  cases request.endpoint with
  | framework | health | ready => trivial
  | operationalMetrics =>
    refine .orRaise fun principal => .orRaise fun correlation => ?_
    exact .ite (n := 2) (fun _ => trivial) fun _ _ => trivial
  | auditEvents limit =>
    refine .orRaise fun principal => .orRaise fun correlation => ?_
    cases limit with
    | none => trivial
    | some limit => exact .ite (n := 2) (fun _ => trivial) fun _ _ => trivial
  | session => exact .orRaise fun principal => trivial
  | createServiceRequest payload =>
    exact withPayload_within (n := 7) hdeps fun _ _ => workflowResponse_within 202 _
  | planWorkflow id => exact hdeps.bind (n := 8) fun _ => workflowResponse_within 200 _
  | decideWorkflowApproval id payload =>
    exact withPayload_within (n := 5) hdeps fun _ _ => workflowResponse_within 200 _
  | processNextLocalTask => exact hdeps.bind (n := 10) fun _ => workflowResponse_within 200 _
  | getWorkflow id =>
    refine .orRaise fun principal => .orRaise fun correlation => ?_
    exact workflowResponse_within 200 (.get principal id correlation)

theorem boundary_within (request : HttpRequest ν) :
    (secureObservableBoundary env settings request).Within request.endpoint.steps := by
  have hsteps : request.endpoint.steps = 1 + (request.endpoint.steps - 1) := by
    cases request.endpoint <;> rfl
  have hobserved (route correlation : String) (response : Int × Body ν) :
      (observed request route correlation response).Within 1 := fun _ => trivial
  unfold secureObservableBoundary
  rw [hsteps]
  split
  · exact (hobserved _ _ _).mono (Nat.le_add_right _ _)
  · rename_i correlation _
    refine .bind (((callEndpoint_within request correlation).handle (m := 0) fun error => ?_).mono
      (Nat.zero_add _).le) (hobserved _ _)
    unfold handleError
    split <;> trivial

/-! ## Progress -/

/-- **Every request is answered in its own time.** However the requests interleave, one takes no
more steps than its endpoint's bound; and from any configuration of a run, whatever the others do
from then on and wherever they have stopped, a request is answered once the turns that it has had
and is given make up the bound. -/
theorem answered_within (hf : Function.Injective env.idFactory) (hp : DefaultPorts u mode env)
    {c : HttpConfig ν} (hc : Served env settings durations c) :
    (∀ t ∈ c.threads, t.log.length ≤ t.call.endpoint.steps) ∧
    ∀ tid t, c.threads[tid]? = some t →
      ∀ schedule : List (Move (HttpRequest ν) ((Datetime × Datetime) × ℚ)),
      t.call.endpoint.steps ≤ t.log.length + schedule.countP (Move.turnOf tid) →
      ∃ t' response, ((application env settings durations).play c schedule).threads[tid]? =
          some t' ∧ t'.call = t.call ∧ t'.rest.returned = some response := by
  obtain ⟨now, utc, monotonic, h⟩ := hc
  have hwithin := fun tid t (ht : c.threads[tid]? = some t) =>
    h.within (fun request : HttpRequest ν => request.endpoint.steps) rfl boundary_within ht
  refine ⟨fun t ht => ?_, fun tid t ht schedule hturns => ?_⟩
  · obtain ⟨tid, ht⟩ := List.getElem?_of_mem ht
    obtain ⟨left, hsum, -⟩ := hwithin tid t ht
    exact hsum ▸ Nat.le_add_right _ _
  · obtain ⟨left, hsum, hleft⟩ := hwithin tid t ht
    have hgiven : left ≤ schedule.countP (Move.turnOf tid) := by omega
    obtain ⟨t', o, ht', ho⟩ := System.play_ended ht hleft hgiven
    obtain ⟨t'', ht'', hext⟩ :=
      (System.reaches_play (application env settings durations) c schedule).extends ht
    cases ht'.symm.trans ht''
    cases o with
    | ok response => exact ⟨t', response, ht', hext.call, returned_of_outcome ho⟩
    | error failure =>
      have hc' : Served env settings durations ((application env settings durations).play c
          schedule) := ⟨now, utc, monotonic, h.play schedule⟩
      exact absurd ho (hc'.not_raised hf hp (List.mem_of_getElem? ht') failure)

/-! ### A request beside one that has stopped -/

/-- A request that has stopped in the middle of its call, and the same once more. -/
def stoppedRequest : HttpConfig Int :=
  (localApplication localEnv).play (started localSettings 0 0 0)
    (.spawn sampleHttpRequest :: List.replicate 8 (.act 0) ++ [.spawn sampleHttpRequest])

/-- It is answered in ten turns. -/
theorem answered_within_stoppedRequest : ∃ t response,
    ((localApplication localEnv).play stoppedRequest
      (List.replicate 10 (.act 1))).threads[1]? = some t ∧ t.rest.returned = some response := by
  have hserved : Served localEnv localSettings InMemoryOperationalTelemetry.wholeDurations
      stoppedRequest := ⟨0, 0, 0, System.reaches_play _ _ _⟩
  obtain ⟨t', response, ht', -, hr⟩ := (answered_within sampleId_injective localEnv_ports
    hserved).2 1 ⟨sampleHttpRequest, _, [], _⟩ rfl (List.replicate 10 (.act 1)) (by decide)
  exact ⟨t', response, ht', hr⟩

end AgenticDelivery.Api
