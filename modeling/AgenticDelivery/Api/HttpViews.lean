import AgenticDelivery.Api.HttpBoundary
import AgenticDelivery.Api.Views

/-! # What the clients agree on

Whatever the clients ask for and whoever they are, the answers they get about one workflow
are states of one history, and nobody is shown a state from before an answer that anybody
had when the request came in. -/
namespace AgenticDelivery.Api
open AgenticDelivery.Atomic AgenticDelivery.Data AgenticDelivery.Governance AgenticDelivery.Runtime

variable {ν : Type} {env : Environment} {settings : ApiSettings} {durations : Durations ν}
  {c c' : HttpConfig ν} {w w' : Workflow}

/-! ## Responses of one history -/

/-- The part of a response that comes from the plan. -/
def WorkflowResponse.plan (body : WorkflowResponse) :=
  (body.classification, body.modelPolicy, body.proposal, body.citations, body.retrieval,
    body.guardrails, body.evaluation, body.metrics)

/-- `body'` has all that `body` has, where it has it; only the consumption of its approval
may be new. -/
structure WorkflowResponse.Extends (body body' : WorkflowResponse) : Prop where
  workflowId : body'.workflowId = body.workflowId
  createdAt : body'.createdAt = body.createdAt
  correlationId : body'.correlationId = body.correlationId
  request : body'.request = body.request
  requestedLocale : body'.requestedLocale = body.requestedLocale
  transitions : body.transitions <+: body'.transitions
  governanceDecisions : body.governanceDecisions <+: body'.governanceDecisions
  plan : body.proposal ≠ none → body'.plan = body.plan
  actionProposal : WriteOnce body.actionProposal body'.actionProposal
  approvalDecision : ∀ a, body.approvalDecision = some a →
    ∃ consumed, WriteOnce a.consumedAt consumed ∧
      body'.approvalDecision = some { a with consumedAt := consumed }
  executionResult : WriteOnce body.executionResult body'.executionResult

theorem WriteOnce.map {α β : Type} {old new : Option α} (h : WriteOnce old new) (f : α → β) :
    WriteOnce (old.map f) (new.map f) := by
  intro b hb
  obtain ⟨a, ha, rfl⟩ := Option.map_eq_some_iff.mp hb
  rw [h a ha]
  rfl

theorem Grows.response (h : Grows w w') : w.response.Extends w'.response where
  workflowId := h.workflowId
  createdAt := h.createdAt
  correlationId := h.correlationId
  request := h.request
  requestedLocale := h.requestedLocale
  transitions := h.transitions.map _
  governanceDecisions := h.governanceDecisions
  plan hp := by
    cases hplan : w.planningResult with
    | none => exact absurd (by rw [Workflow.response, hplan]; rfl) hp
    | some result =>
      simp only [WorkflowResponse.plan, Workflow.response, hplan, h.planningResult _ hplan]
  actionProposal := h.actionProposal
  approvalDecision a ha := by
    obtain ⟨approval, happroval, rfl⟩ := Option.map_eq_some_iff.mp ha
    obtain ⟨consumed, honce, happroval'⟩ := h.approvalDecision approval happroval
    exact ⟨consumed, honce, by rw [Workflow.response, happroval']; rfl⟩
  executionResult := h.executionResult.map _

/-- A later state of a workflow is answered with the same body, or a newer one that extends it. -/
theorem Later.response (hl : Later env w w') (h : Lifecycle env w) :
    w.response = w'.response ∨
      w.response.stateVersion < w'.response.stateVersion ∧ w.response.Extends w'.response := by
  rcases hl.eq_or_version_lt with rfl | hlt
  · exact .inl rfl
  · exact .inr ⟨hlt, (hl.grows h).response⟩

/-! ## The answers of a run -/

/-- The request is answered with this view of a workflow. -/
def Viewed (t : HttpThread ν) (body : WorkflowResponse) : Prop :=
  ∃ response, t.rest.returned = some response ∧ response.body = .workflow body

/-- **The clients agree, and nobody goes back in time.** However the requests interleave, two
answers about one workflow are the same if their versions are, and the newer one extends the
other; and a request that comes in when a view has been answered to whomever is answered with
no older one. -/
theorem views_agree (hf : Function.Injective env.idFactory) (hc : Served env settings durations c)
    (hr : (application env settings durations).Reaches c c') :
    (∀ t ∈ c.threads, ∀ t' ∈ c.threads, ∀ body body', Viewed t body → Viewed t' body' →
      body.workflowId = body'.workflowId →
      (body.stateVersion = body'.stateVersion → body = body') ∧
      (body.stateVersion < body'.stateVersion → body.Extends body')) ∧
    ∀ t ∈ c.threads, ∀ tid' t', c'.threads[tid']? = some t' → c.threads.length ≤ tid' →
      ∀ body body', Viewed t body → Viewed t' body' → body.workflowId = body'.workflowId →
      body.stateVersion ≤ body'.stateVersion := by
  obtain ⟨s, hs, hcarry⟩ := hc.carries
  constructor
  · rintro t ht t' ht' _ _ ⟨response, hret, hbody⟩ ⟨response', hret', hbody'⟩ hid
    obtain ⟨tid, ht⟩ := List.getElem?_of_mem ht
    obtain ⟨tid', ht'⟩ := List.getElem?_of_mem ht'
    obtain ⟨u, w, hu, -, ho, rfl⟩ := answered_workflow hf hs hcarry ht hret hbody
    obtain ⟨u', w', hu', -, ho', rfl⟩ := answered_workflow hf hs hcarry ht' hret' hbody'
    rcases hs.comparable_returned hf hu hu' ho ho' hid with hl | hl
    · rcases hl.response (hs.returned hf hu ho).1.life with heq | ⟨hlt, hextends⟩
      · exact ⟨fun _ => heq, fun hlt => absurd hlt (by rw [heq]; exact Nat.lt_irrefl _)⟩
      · exact ⟨fun heq => absurd heq hlt.ne, fun _ => hextends⟩
    · rcases hl.response (hs.returned hf hu' ho').1.life with heq | ⟨hlt, -⟩
      · exact ⟨fun _ => heq.symm, fun hlt => absurd hlt (by rw [heq]; exact Nat.lt_irrefl _)⟩
      · exact ⟨fun heq => absurd heq hlt.ne', fun hlt' => absurd hlt hlt'.not_gt⟩
  · rintro t ht tid' t' ht' hlate _ _ ⟨response, hret, hbody⟩ ⟨response', hret', hbody'⟩ hid
    obtain ⟨tid, ht⟩ := List.getElem?_of_mem ht
    obtain ⟨s', hreach, hcarry'⟩ := Layer.reaches hr hcarry
    obtain ⟨u, w, hu, -, ho, rfl⟩ := answered_workflow hf hs hcarry ht hret hbody
    obtain ⟨u', w', hu', -, ho', rfl⟩ :=
      answered_workflow hf (hs.trans hreach) hcarry' ht' hret' hbody'
    have hl := hs.later_returned hf hreach hu hu' (hcarry.length ▸ hlate) ho ho' hid
    rcases hl.response (hs.returned hf hu ho).1.life with heq | ⟨hlt, -⟩
    · rw [heq]
    · exact hlt.le

/-! ### A request and its plan -/

/-- The owner asks for the plan. -/
def planRequest : HttpRequest Int :=
  { sampleHttpRequest with
    endpoint := .planWorkflow "w"
    correlationHeader := none
    idempotencyHeader := some "plan-00001" }

/-- The application, after the request of the examples and its plan. -/
def plannedRequest : HttpConfig Int :=
  (localApplication sampleEnv).play servedRequest
    (.spawn planRequest :: List.replicate 14 (.act 1))

def Response.view (response : Response ν) : Option WorkflowResponse :=
  match response.body with
  | .workflow body => some body
  | _ => none

theorem viewed_of_view {t : HttpThread ν} {body : WorkflowResponse}
    (h : t.rest.returned.bind Response.view = some body) : Viewed t body := by
  obtain ⟨response, hr, hview⟩ := Option.bind_eq_some_iff.mp h
  refine ⟨response, hr, ?_⟩
  unfold Response.view at hview
  split at hview
  · cases hview
    assumption
  · cases hview

/-- The plan is answered with a newer view of the workflow, which extends the first. -/
theorem views_agree_plannedRequest : ∃ body body' : WorkflowResponse,
    body'.status = .awaitingApproval ∧ body.stateVersion < body'.stateVersion ∧
      body.Extends body' := by
  have h : (plannedRequest.threads[0]?.bind fun t => t.rest.returned.bind Response.view).any
      (fun body => (plannedRequest.threads[1]?.bind fun t => t.rest.returned.bind
        Response.view).any fun body' => body'.status = .awaitingApproval ∧
          body.stateVersion < body'.stateVersion ∧ body.workflowId = body'.workflowId) = true := by
    decide +kernel
  obtain ⟨body, hbody, h⟩ := (Option.any_eq_true _ _).mp h
  obtain ⟨body', hbody', h⟩ := (Option.any_eq_true _ _).mp h
  obtain ⟨hstatus, hlt, hid⟩ := of_decide_eq_true h
  obtain ⟨t, ht, hv⟩ := Option.bind_eq_some_iff.mp hbody
  obtain ⟨t', ht', hv'⟩ := Option.bind_eq_some_iff.mp hbody'
  have hserved : Served sampleEnv localSettings InMemoryOperationalTelemetry.wholeDurations
      plannedRequest := ⟨0, 0, 0, (System.reaches_play _ _ _).play _⟩
  have hagree := (views_agree sampleId_injective hserved .refl).1 t (List.mem_of_getElem? ht) t'
    (List.mem_of_getElem? ht') body body' (viewed_of_view hv) (viewed_of_view hv') hid
  exact ⟨body, body', hstatus, hlt, hagree.2 hlt⟩

end AgenticDelivery.Api
