import AgenticDelivery.Api.Http

/-! # The application over the service

A request makes at most one call of the workflow service, and every run of the
application is, but for the audit events of its own endpoints, a run of the service. -/
namespace AgenticDelivery.Api
open AgenticDelivery.Atomic AgenticDelivery.Data AgenticDelivery.Governance AgenticDelivery.Runtime
open Program

variable {ν : Type} {env : Environment} {settings : ApiSettings} {durations : Durations ν}
  {request : HttpRequest ν} {correlation : String}

/-! ## The call of a request -/

/-- The idempotency key of a request, when it is accepted. -/
def HttpRequest.key (request : HttpRequest ν) : Option String :=
  match idempotencyKey request.idempotencyHeader with
  | .ok key => some key
  | .error _ => none

/-- The call that a request is for, when its credential, its headers and its body are
accepted. -/
def HttpRequest.serviceCall (request : HttpRequest ν) : Option Call :=
  match request.credential.bind verify, request.correlation with
  | some principal, some correlation =>
    match request.endpoint with
    | .createServiceRequest (.valid payload) => request.key.map fun key =>
        .create (payload.arguments principal key correlation)
    | .planWorkflow workflowId => request.key.map fun _ => .plan principal workflowId correlation
    | .decideWorkflowApproval workflowId (.valid payload) => request.key.map fun key =>
        .decideApproval principal workflowId payload.decision payload.reason key correlation
    | .processNextLocalTask => request.key.map fun _ => .processNextTask principal correlation
    | .getWorkflow workflowId => some (.get principal workflowId correlation)
    | _ => none
  | _, _ => none

/-- A call that nobody makes. -/
def idleCall : Call := .processNextTask ⟨"", "", ∅⟩ ""

def Endpoint.successCode : Endpoint → Int
  | .createServiceRequest _ => 202
  | _ => 200

/-- What the handlers make of an error of the service. -/
def errorAnswer (correlation : String) (failure : Failure) : Except Failure (Response ν) :=
  match (HttpError.service failure).handled correlation with
  | .ok problem => .ok ⟨problem.status, .problem problem, correlation⟩
  | .error failure => .error failure

/-- What a request answers when its call has returned or raised `outcome`. -/
def HttpRequest.answer (request : HttpRequest ν) (correlation : String)
    (outcome : Except Failure Workflow) : Except Failure (Response ν) :=
  match outcome.bind fun workflow => (WorkflowResponse.fromDomain workflow) with
  | .ok response => .ok ⟨request.endpoint.successCode, .workflow response, correlation⟩
  | .error failure => errorAnswer correlation failure

/-- What a request answers when the rate limiter has refused it. -/
def limited (correlation : String) : Response ν where
  statusCode := 429
  body := .problem (problem 429 "Request rate exceeded"
    "The local mutation limit was reached. Retry after the configured window."
    "request-rate-exceeded" correlation)
  correlationId := correlation

/-- How a request ends: without a workflow, when it is for no call; otherwise refused by
the limiter, or with what its call has returned or raised. -/
def HttpRequest.Ends (request : HttpRequest ν) (outcome : Except Failure (Response ν))
    (inner : Option (Except Failure Workflow)) : Prop :=
  (request.serviceCall = none ∧ ∃ response, outcome = .ok response ∧
    ∀ w, response.body ≠ .workflow w) ∨
  ∃ call correlation, request.serviceCall = some call ∧ request.correlation = some correlation ∧
    (outcome = .ok (limited correlation) ∨
      ∃ o, inner = some o ∧ outcome = request.answer correlation o)

/-! ## Requests without a call -/

/-- An endpoint that makes no call: it does without the service, and does not answer
with a workflow. -/
def Callless (correlation : String) : Http ν (Int × Body ν) → Prop
  | .done response => ∀ w, response.2 ≠ .workflow w
  | .raise error => ∃ problem, error.handled correlation = .ok problem
  | .call op next => httpEmbedding.Own op ∧ ∀ r, Callless correlation (next r)

/-- What the middleware makes of an endpoint. -/
def middleware (request : HttpRequest ν) (correlation : String) (endpoint : Http ν (Int × Body ν)) :
    Program (HttpOp ν) HttpReply Failure (Response ν) :=
  endpoint.handle (handleError correlation) >>=
    observed request request.endpoint.route correlation

section Finish
variable {finish : Except Failure (Response ν) → Option (Except Failure Workflow) → Prop}
  {p : Service Workflow}

theorem over_observed {route : String} {response : Int × Body ν}
    (h : finish (.ok ⟨response.1, response.2, correlation⟩) p.outcome) :
    Over httpEmbedding finish (observed request route correlation response) p :=
  .own (fun _ => rfl) fun _ => .ended rfl h

theorem handleError_eq {error : HttpError} {problem : ProblemResponse}
    (h : error.handled correlation = .ok problem) :
    (handleError correlation error : Program (HttpOp ν) HttpReply Failure (Int × Body ν)) =
      .done (problem.status, .problem problem) := by
  rw [handleError, h]

theorem over_failure {failure : Failure}
    (h : finish (errorAnswer correlation failure) p.outcome) :
    Over httpEmbedding finish (middleware request correlation (.raise (.service failure))) p := by
  unfold errorAnswer at h
  rw [middleware, handle_raise]
  cases hp : (HttpError.service failure).handled correlation with
  | ok problem =>
    rw [hp] at h
    rw [handleError_eq hp]
    exact over_observed h
  | error failure' =>
    rw [hp] at h
    rw [handleError, hp]
    exact .ended rfl h

end Finish

theorem Callless.over {p : Service Workflow} (hnone : request.serviceCall = none)
    {endpoint : Http ν (Int × Body ν)} (h : Callless correlation endpoint) :
    Over httpEmbedding request.Ends (middleware request correlation endpoint) p := by
  induction endpoint with
  | done response => exact over_observed (.inl ⟨hnone, _, rfl, h⟩)
  | raise error =>
    obtain ⟨problem, hp⟩ := h
    rw [middleware, handle_raise, handleError_eq hp]
    refine over_observed (.inl ⟨hnone, _, rfl, fun w hw => ?_⟩)
    cases hw
  | call op next ih => exact .own h.1 fun r => ih r (h.2 r)

/-! ## Dependencies -/

theorem correlationId_eq (hc : request.correlation = some correlation) :
    correlationId request.correlationHeader correlation = .ok correlation := by
  unfold HttpRequest.correlation at hc
  unfold correlationId
  cases hh : request.correlationHeader with
  | none => rfl
  | some incoming =>
    simp only [hh] at hc ⊢
    split at hc
    · cases hc
      rw [if_pos ‹_›]
    · cases hc

theorem authenticatedPrincipal_eq {principal : Principal}
    (hp : request.credential.bind verify = some principal) :
    authenticatedPrincipal request.credential = .ok principal := by
  rw [authenticatedPrincipal, hp]

theorem authenticatedPrincipal_none (hp : request.credential.bind verify = none) :
    authenticatedPrincipal request.credential =
      .error (.authenticationRequired "A valid bearer credential is required.") := by
  rw [authenticatedPrincipal, hp]

theorem idempotencyKey_eq {key : String} (hk : request.key = some key) :
    idempotencyKey request.idempotencyHeader = .ok key := by
  unfold HttpRequest.key at hk
  cases h : idempotencyKey request.idempotencyHeader <;> rw [h] at hk <;> cases hk
  rfl

theorem idempotencyKey_none (hk : request.key = none) : ∃ detail,
    idempotencyKey request.idempotencyHeader = .error (.invalidRequestMetadata detail) := by
  unfold HttpRequest.key at hk
  unfold idempotencyKey at hk ⊢
  cases hh : request.idempotencyHeader with
  | none => exact ⟨_, rfl⟩
  | some value =>
    simp only [hh] at hk ⊢
    by_cases hbad : value.length < 8 ∨ ¬Metadata value
    · rw [if_pos hbad]
      exact ⟨_, rfl⟩
    · rw [if_neg hbad] at hk
      cases hk

/-- The dependencies of a mutation, when its credential and its headers are accepted. -/
theorem mutationDependencies_eq {principal : Principal} {key : String}
    (hp : request.credential.bind verify = some principal)
    (hc : request.correlation = some correlation) (hk : request.key = some key) :
    mutationDependencies request correlation =
      (enforceMutationRateLimit principal >>= fun _ => pure (principal, correlation, key)) := by
  rw [mutationDependencies, authenticatedPrincipal_eq hp, correlationId_eq hc,
    idempotencyKey_eq hk]
  rfl

theorem mutationDependencies_refused (hc : request.correlation = some correlation)
    (h : request.credential.bind verify = none ∨ request.key = none) : ∃ error problem,
      mutationDependencies request correlation = .raise error ∧
        error.handled correlation = .ok problem := by
  unfold mutationDependencies
  cases hp : request.credential.bind verify with
  | none =>
    rw [authenticatedPrincipal_none hp]
    exact ⟨_, _, rfl, rfl⟩
  | some principal =>
    obtain ⟨detail, hk⟩ := idempotencyKey_none (h.resolve_left (by rw [hp]; simp))
    rw [authenticatedPrincipal_eq hp, correlationId_eq hc, hk]
    exact ⟨_, _, rfl, rfl⟩

/-! ## Requests with a call -/

theorem over_workflowResponse {call : Call} (hcall : request.serviceCall = some call)
    (hc : request.correlation = some correlation) :
    Over httpEmbedding request.Ends
      (middleware request correlation (workflowResponse env request.endpoint.successCode call))
      (call.body env) := by
  rw [middleware, workflowResponse, inner_handle]
  have ends : ∀ x, request.Ends (request.answer correlation x) (some x) :=
    fun x => .inr ⟨call, correlation, hcall, hc, .inr ⟨x, rfl, rfl⟩⟩
  refine Over.within (fun w => ?_) fun failure => ?_
  · have ha := ends (.ok w)
    cases hw : WorkflowResponse.fromDomain w with
    | ok response =>
      rw [HttpRequest.answer, Except.bind, hw] at ha
      simp only [hw]
      exact over_observed ha
    | error error =>
      rw [HttpRequest.answer, Except.bind, hw] at ha
      simp only [hw]
      exact over_failure ha
  · exact over_failure (ends (.error failure))

/-- A mutation with accepted headers asks the limiter, and goes on or is refused. -/
theorem over_mutation {principal : Principal} {key : String} {p : Service Workflow}
    {k : Principal × String × String → Http ν (Int × Body ν)}
    (hp : request.credential.bind verify = some principal)
    (hc : request.correlation = some correlation) (hk : request.key = some key)
    (hcall : request.serviceCall ≠ none)
    (h : Over httpEmbedding request.Ends
      (middleware request correlation (k (principal, correlation, key))) p) :
    Over httpEmbedding request.Ends
      (middleware request correlation (mutationDependencies request correlation >>= k)) p := by
  rw [mutationDependencies_eq hp hc hk]
  refine .own (fun _ => rfl) fun now => .own (fun _ => rfl) fun allowed => ?_
  cases allowed with
  | true => exact h
  | false =>
    obtain ⟨call, hcall⟩ := Option.ne_none_iff_exists'.mp hcall
    exact over_observed (.inr ⟨call, correlation, hcall, hc, .inl rfl⟩)

/-! ## The code of a request -/

theorem callless_mutation {k : Principal × String × String → Http ν (Int × Body ν)}
    (hc : request.correlation = some correlation)
    (h : ∀ principal key, request.credential.bind verify = some principal →
      request.key = some key → Callless correlation (k (principal, correlation, key))) :
    Callless correlation (mutationDependencies request correlation >>= k) := by
  cases hp : request.credential.bind verify with
  | none =>
    obtain ⟨error, problem, he, hh⟩ := mutationDependencies_refused hc (.inl hp)
    rw [he]
    exact ⟨problem, hh⟩
  | some principal =>
    cases hk : request.key with
    | none =>
      obtain ⟨error, problem, he, hh⟩ := mutationDependencies_refused hc (.inr hk)
      rw [he]
      exact ⟨problem, hh⟩
    | some key =>
      rw [mutationDependencies_eq hp hc hk]
      refine ⟨fun _ => rfl, fun now => ⟨fun _ => rfl, fun allowed => ?_⟩⟩
      cases allowed with
      | true => exact h principal key hp hk
      | false => exact ⟨_, rfl⟩

/-- The endpoints that read the operations do without the service. -/
theorem callless_operations (hc : request.correlation = some correlation) :
    Callless correlation (operationalMetrics request correlation) ∧
      ∀ limit, Callless correlation (auditEvents request correlation limit) := by
  unfold operationalMetrics auditEvents
  rw [correlationId_eq hc]
  cases hp : request.credential.bind verify with
  | none =>
    rw [authenticatedPrincipal_none hp]
    exact ⟨⟨_, rfl⟩, fun _ => ⟨_, rfl⟩⟩
  | some principal =>
    rw [authenticatedPrincipal_eq hp]
    simp only [orRaise_ok, done_bind]
    constructor
    · split
      · exact ⟨fun _ => rfl, fun _ => ⟨_, rfl⟩⟩
      · exact ⟨fun _ => rfl, fun _ => ⟨fun _ => rfl, fun _ w hw => by cases hw⟩⟩
    · intro limit
      cases limit with
      | none => exact ⟨_, rfl⟩
      | some limit =>
        dsimp only
        split
        · exact ⟨fun _ => rfl, fun _ => ⟨_, rfl⟩⟩
        · exact ⟨fun _ => rfl, fun _ => ⟨fun _ => rfl, fun _ w hw => by cases hw⟩⟩

theorem callless_withPayload {α : Type} {payload : Payload α}
    {endpoint : α → Principal × String × String → Http ν (Int × Body ν)}
    (hc : request.correlation = some correlation)
    (h : ∀ value principal key, payload = .valid value →
      request.credential.bind verify = some principal → request.key = some key →
      Callless correlation (endpoint value (principal, correlation, key))) :
    Callless correlation
      (withPayload payload (mutationDependencies request correlation) endpoint) := by
  cases payload with
  | unreadable => exact ⟨_, rfl⟩
  | invalid => exact callless_mutation hc fun _ _ _ _ => ⟨_, rfl⟩
  | valid value => exact callless_mutation hc fun p k hp hk => h value p k rfl hp hk

theorem callless_callEndpoint (hc : request.correlation = some correlation)
    (hnone : request.serviceCall = none) :
    Callless correlation (callEndpoint env settings request correlation) := by
  unfold callEndpoint
  unfold HttpRequest.serviceCall at hnone
  cases he : request.endpoint with
  | framework | health | ready => exact fun w hw => by cases hw
  | operationalMetrics => exact (callless_operations hc).1
  | auditEvents limit => exact (callless_operations hc).2 limit
  | session =>
    dsimp only [Api.session]
    cases hp : request.credential.bind verify with
    | none =>
      rw [authenticatedPrincipal_none hp]
      exact ⟨_, rfl⟩
    | some principal =>
      rw [authenticatedPrincipal_eq hp]
      exact fun w hw => by cases hw
  | createServiceRequest payload =>
    refine callless_withPayload hc fun value p k hv hp hk => ?_
    simp [he, hv, hp, hk, hc] at hnone
  | planWorkflow workflowId =>
    refine callless_mutation hc fun p k hp hk => ?_
    simp [he, hp, hk, hc] at hnone
  | decideWorkflowApproval workflowId payload =>
    refine callless_withPayload hc fun value p k hv hp hk => ?_
    simp [he, hv, hp, hk, hc] at hnone
  | processNextLocalTask =>
    refine callless_mutation hc fun p k hp hk => ?_
    simp [he, hp, hk, hc] at hnone
  | getWorkflow workflowId =>
    dsimp only [Api.getWorkflow]
    cases hp : request.credential.bind verify with
    | none =>
      rw [authenticatedPrincipal_none hp]
      exact ⟨_, rfl⟩
    | some principal => simp [he, hp, hc] at hnone

/-- What the credential, the headers and the endpoint of a request with a call are. -/
theorem serviceCall_cases {call : Call} (h : request.serviceCall = some call) :
    ∃ principal correlation, request.credential.bind verify = some principal ∧
      request.correlation = some correlation ∧
      ((∃ workflowId, request.endpoint = .getWorkflow workflowId ∧
          call = .get principal workflowId correlation) ∨
        ∃ key, request.key = some key ∧
          ((∃ payload, request.endpoint = .createServiceRequest (.valid payload) ∧
              call = .create (payload.arguments principal key correlation)) ∨
            (∃ workflowId, request.endpoint = .planWorkflow workflowId ∧
              call = .plan principal workflowId correlation) ∨
            (∃ workflowId payload,
              request.endpoint = .decideWorkflowApproval workflowId (.valid payload) ∧
              call = .decideApproval principal workflowId payload.decision payload.reason key
                correlation) ∨
            request.endpoint = .processNextLocalTask ∧
              call = .processNextTask principal correlation)) := by
  unfold HttpRequest.serviceCall at h
  split at h
  · rename_i principal correlation hp hc
    refine ⟨principal, correlation, hp, hc, ?_⟩
    split at h <;> rename_i he
    · obtain ⟨key, hk, rfl⟩ := Option.map_eq_some_iff.mp h
      exact .inr ⟨key, hk, .inl ⟨_, he, rfl⟩⟩
    · obtain ⟨key, hk, rfl⟩ := Option.map_eq_some_iff.mp h
      exact .inr ⟨key, hk, .inr (.inl ⟨_, he, rfl⟩)⟩
    · obtain ⟨key, hk, rfl⟩ := Option.map_eq_some_iff.mp h
      exact .inr ⟨key, hk, .inr (.inr (.inl ⟨_, _, he, rfl⟩))⟩
    · obtain ⟨key, hk, rfl⟩ := Option.map_eq_some_iff.mp h
      exact .inr ⟨key, hk, .inr (.inr (.inr ⟨he, rfl⟩))⟩
    · cases h
      exact .inl ⟨_, he, rfl⟩
    · cases h
  · cases h

/-- **A request makes the operations of its call**, and of no other. -/
theorem over_boundary (env : Environment) (settings : ApiSettings) (request : HttpRequest ν) :
    Over httpEmbedding request.Ends (secureObservableBoundary env settings request)
      ((request.serviceCall.getD idleCall).body env) := by
  unfold secureObservableBoundary
  cases hc : request.correlation with
  | none =>
    have hnone : request.serviceCall = none := by
      rw [HttpRequest.serviceCall, hc]
      cases request.credential.bind verify <;> rfl
    exact over_observed (.inl ⟨hnone, _, rfl, fun w hw => by cases hw⟩)
  | some correlation =>
    dsimp only
    cases hcall : request.serviceCall with
    | none => exact (callless_callEndpoint hc hcall).over hcall
    | some call =>
      have hover := @over_workflowResponse _ env _ _ _ hcall hc
      have hsome : request.serviceCall ≠ none := by rw [hcall]; simp
      obtain ⟨principal, correlation', hp, hc', hcases⟩ := serviceCall_cases hcall
      cases hc.symm.trans hc'
      change Over _ _ (middleware request correlation _) _
      rw [callEndpoint]
      rcases hcases with ⟨id, he, rfl⟩ | ⟨key, hk, ⟨payload, he, rfl⟩ | ⟨id, he, rfl⟩ |
        ⟨id, payload, he, rfl⟩ | ⟨he, rfl⟩⟩ <;> rw [he] at hover ⊢
      · change Over _ _ (middleware _ _ (getWorkflow _ _ _ _)) _
        rw [getWorkflow, authenticatedPrincipal_eq hp, correlationId_eq hc]
        exact hover
      · exact over_mutation hp hc hk hsome hover
      · exact over_mutation hp hc hk hsome hover
      · exact over_mutation hp hc hk hsome hover
      · exact over_mutation hp hc hk hsome hover

/-! ## Runs -/

/-- The states of the service are the same, but for the audit events. -/
def ButAudit (s s' : State) : Prop := s' = { s with audit := s'.audit }

theorem ButAudit.symm {s s' : State} (h : ButAudit s s') : ButAudit s' s := by
  rw [ButAudit] at h
  rw [ButAudit, h]

/-- Nothing that an operation answers or changes, but for the events, comes from the
events. -/
theorem ButAudit.exec {s s' : State} (h : ButAudit s s') (env : Environment) (tid : Nat) (op : Op) :
    ButAudit (exec env tid op s).2 (exec env tid op s').2 ∧
      (Api.exec env tid op s).1 = (Api.exec env tid op s').1 := by
  rw [ButAudit] at h
  rw [h]
  cases op <;> exact ⟨rfl, rfl⟩

def serviceLayer (env : Environment) (settings : ApiSettings) (durations : Durations ν) :
    Layer (application env settings durations) (system env) httpEmbedding where
  callOf request := request.serviceCall.getD idleCall
  Shares s₂ s := ButAudit s₂.service s
  finish := HttpRequest.Ends
  body := over_boundary env settings
  own tid op s₂ s ho h := by
    cases op with
    | service op => cases ho (Api.exec env tid op s₂.service).1
    | _ => exact h
  shared tid op s₂ s h := h.exec env tid op
  tick t₂ s₂ s h := ⟨t₂.1, by rw [ButAudit] at h; rw [h]; rfl⟩

theorem Served.reaches {c c' : HttpConfig ν} (hc : Served env settings durations c)
    (hr : (application env settings durations).Reaches c c') :
    Served env settings durations c' := by
  obtain ⟨now, utc, monotonic, h⟩ := hc
  exact ⟨now, utc, monotonic, h.trans hr⟩

theorem Served.carries {c : HttpConfig ν} (hc : Served env settings durations c) :
    ∃ c', Reachable env c' ∧ (serviceLayer env settings durations).Carries c c' := by
  obtain ⟨now, utc, monotonic, h⟩ := hc
  have hcarry : (serviceLayer env settings durations).Carries
      (started settings now utc monotonic) (initial now utc) :=
    ⟨rfl, rfl, fun _ _ ht => by cases ht⟩
  obtain ⟨c', hreach, hc'⟩ := Layer.reaches h hcarry
  exact ⟨c', ⟨now, utc, hreach⟩, hc'⟩

/-- The caller of the service that a request is, if it is one. -/
theorem call_of_makes {t : HttpThread ν} {t' : Caller}
    (hm : (serviceLayer env settings durations).Makes t t') {call : Call}
    (hcall : t.call.serviceCall = some call) : t'.call = call := by
  rw [hm.call]
  change t.call.serviceCall.getD idleCall = call
  rw [hcall]
  rfl

/-- **The application refines the service.** In every run of the application, whatever the
requests and however they interleave, the stores are those of a run of the service in
which the `i`-th caller makes the call of the `i`-th request, operation by operation;
and a request that has ended answers with what its call has returned or raised, unless
it is for no call or the rate limiter has refused it. -/
theorem refines_service {c : HttpConfig ν} (hc : Served env settings durations c) :
    ∃ c', Reachable env c' ∧ ButAudit c.state.service c'.state ∧
      c'.threads.length = c.threads.length ∧
      ∀ (tid : Nat) (t : HttpThread ν), c.threads[tid]? = some t → ∃ t',
        c'.threads[tid]? = some t' ∧ ButAudit t.born.service t'.born ∧
        t'.log = t.log.filterMap httpEmbedding.event ∧
        (∀ call, t.call.serviceCall = some call → t'.call = call) ∧
        ∀ o, t.rest.outcome = some o → t.call.Ends o t'.rest.outcome := by
  obtain ⟨c', hreach, hc'⟩ := hc.carries
  refine ⟨c', hreach, hc'.shares, hc'.length, fun tid t ht => ?_⟩
  obtain ⟨t', ht', hm⟩ := hc'.makes tid t ht
  exact ⟨t', ht', hm.born, hm.log, fun call => call_of_makes hm, fun o ho => hm.rest.finished ho⟩

/-! ### One request -/

/-- The settings without a configuration. -/
def localSettings : ApiSettings := {}

/-- The application of the examples. -/
abbrev localApplication (env : Environment) :=
  application env localSettings InMemoryOperationalTelemetry.wholeDurations

/-- The request of the examples, sent to the API. -/
def sampleHttpRequest : HttpRequest Int where
  endpoint := .createServiceRequest (.valid
    { spacedPayload with request := "Prepare a delivery plan", request_length := by decide })
  credential := some "local-requester-token"
  correlationHeader := some "c-1"
  idempotencyHeader := some "key-00001"
  uuid := "u-1"
  uuid_metadata := by decide
  durationMs := 1

/-- The application, after it has served the request. -/
def servedRequest : HttpConfig Int :=
  (localApplication sampleEnv).play (started localSettings 0 0 0)
    (.spawn sampleHttpRequest :: List.replicate 10 (.act 0))

theorem served_servedRequest :
    Served sampleEnv localSettings InMemoryOperationalTelemetry.wholeDurations servedRequest :=
  ⟨0, 0, 0, System.reaches_play _ _ _⟩

/-- It is accepted, with the outcome of the first caller of a run of the service. -/
theorem refines_service_servedRequest : ∃ (response : Response Int) (c' : PoolConfig) (t' : Caller)
    (o : Except Failure Workflow), response.statusCode = 202 ∧ Reachable sampleEnv c' ∧
      c'.threads[0]? = some t' ∧ t'.rest.outcome = some o ∧
      sampleHttpRequest.answer "c-1" o = .ok response := by
  have h : (servedRequest.threads[0]?.bind fun t => t.rest.returned).any
      (fun r => r.statusCode = 202) = true := by decide
  obtain ⟨response, hr, hcode⟩ := (Option.any_eq_true _ _).mp h
  obtain ⟨t, ht, hr⟩ := Option.bind_eq_some_iff.mp hr
  have hcode : response.statusCode = 202 := of_decide_eq_true hcode
  have hcall : t.call = sampleHttpRequest := by
    cases ht
    rfl
  obtain ⟨c', hc', -, -, hmakes⟩ := refines_service served_servedRequest
  obtain ⟨t', ht', -, -, -, hends⟩ := hmakes 0 t ht
  have hend := hends (.ok response) (outcome_of_returned hr)
  rw [hcall] at hend
  rcases hend with ⟨hnone, -⟩ | ⟨call, correlation, -, hc, hlim | ⟨o, ho, ha⟩⟩
  · cases hnone
  · cases hlim
    exact absurd hcode (by decide : (429 : Int) ≠ 202)
  · cases hc
    exact ⟨response, c', t', o, hcode, hc', ht', ho, ha.symm⟩

end AgenticDelivery.Api
