import AgenticDelivery.Api.HttpBoundary
import AgenticDelivery.Api.Sequential

/-! # One request alone

A request that changes something, when nobody interrupts it and the limiter lets it
through, is its call alone: it answers with what the call returns or raises, and leaves the
stores as the call does. -/
namespace AgenticDelivery.Api
open AgenticDelivery.Atomic AgenticDelivery.Data AgenticDelivery.Governance AgenticDelivery.Runtime
open Program

variable {ν : Type} {env : Environment} {settings : ApiSettings} {durations : Durations ν}
  {request : HttpRequest ν} {correlation : String} {call : Call} {tid : Nat}

/-- The stores and the counters are those of the service; the clock and the events may be others. -/
def Serves (s₂ s : State) : Prop :=
  s₂ = { s with audit := s₂.audit, now := s₂.now, utc := s₂.utc }

theorem Serves.stored {s₂ s : State} (h : Serves s₂ s) (id : String) :
    s₂.stored id = s.stored id := by
  rw [Serves] at h
  rw [h]

/-- Time passes. -/
theorem Serves.later {s₂ s : State} (h : Serves s₂ s) (now utc : Datetime) :
    Serves { s₂ with now, utc } s := by
  have heq : s₂ = { s with audit := s₂.audit, now := s₂.now, utc := s₂.utc } := h
  exact congrArg (fun s' : State => ({ s' with now := now, utc := utc } : State)) heq

/-- After a look at the clock, an operation does the same to both. -/
theorem Serves.exec {s₂ s : State} (h : Serves s₂ s) (t : Datetime × Datetime) (op : Op) :
    Serves (Api.exec env tid op { s₂ with now := t.1, utc := t.2 }).2
        (Api.exec env tid op { s with now := t.1, utc := t.2 }).2 ∧
      (Api.exec env tid op { s₂ with now := t.1, utc := t.2 }).1 =
        (Api.exec env tid op { s with now := t.1, utc := t.2 }).1 := by
  rw [Serves] at h
  rw [h]
  cases op <;> exact ⟨rfl, rfl⟩

/-! ## The text of a mutation -/

theorem mutationDependencies_bind {principal : Principal} {key : String}
    (hp : request.credential.bind verify = some principal)
    (hc : request.correlation = some correlation) (hk : request.key = some key)
    (k : Principal × String × String → Http ν (Int × Body ν)) :
    (mutationDependencies request correlation >>= k) =
      (enforceMutationRateLimit principal >>= fun _ => k (principal, correlation, key)) := by
  rw [mutationDependencies_eq hp hc hk, Program.bind_assoc]
  rfl

/-- Once its credential, its headers and its body are accepted, a mutation asks the limiter
and makes its call. -/
theorem boundary_post (hcall : request.serviceCall = some call)
    (hpost : request.endpoint.method = "POST") :
    secureObservableBoundary env settings request =
      middleware request call.correlationId (enforceMutationRateLimit call.principal >>= fun _ =>
        workflowResponse env request.endpoint.successCode call) := by
  obtain ⟨principal, correlation, hp, hc, hcases⟩ := serviceCall_cases hcall
  have hboundary : secureObservableBoundary env settings request =
      middleware request correlation (callEndpoint env settings request correlation) := by
    unfold secureObservableBoundary
    rw [hc]
    rfl
  rw [hboundary, callEndpoint]
  rcases hcases with ⟨id, he, rfl⟩ | ⟨key, hk, ⟨payload, he, rfl⟩ | ⟨id, he, rfl⟩ |
    ⟨id, payload, he, rfl⟩ | ⟨he, rfl⟩⟩
  · rw [he] at hpost
    exact absurd hpost (by simp [Endpoint.method])
  all_goals
    rw [he]
    exact congrArg (middleware request correlation) (mutationDependencies_bind hp hc hk _)

/-! ## The run of a mutation -/

section Run
variable {s₂ s₂' : HttpState ν} {s : State} {rate : RateRun}
  {clock : Nat → (Datetime × Datetime) × ℚ}

/-- The stores are those of the service, and the limiter is in this state. -/
def Carried (rate : RateRun) (s₂ : HttpState ν) (s : State) : Prop :=
  Serves s₂.service s ∧ s₂.rate = rate

/-- One operation of an application that nobody interrupts. -/
abbrev httpTimed (env : Environment) (settings : ApiSettings) (durations : Durations ν)
    (tid : Nat) :=
  timed (httpExec env durations tid) (application env settings durations).tick

/-- The response is recorded and goes out. -/
theorem run_observed (h : Carried rate s₂ s) (route correlation : String)
    (response : Int × Body ν) : ∃ x, Carried rate x.1 s ∧
      (observed request route correlation response).run (httpTimed env settings durations tid)
        (s₂, clock) = (.ok ⟨response.1, response.2, correlation⟩, x) :=
  ⟨_, ⟨h.1.later _ _, h.2⟩, rfl⟩

theorem run_error (h : Carried rate s₂ s) (failure : Failure) : ∃ x, Carried rate x.1 s ∧
    (middleware request correlation (.raise (.service failure))).run
        (httpTimed env settings durations tid) (s₂, clock) =
      (errorAnswer correlation failure, x) := by
  rw [middleware, handle_raise, errorAnswer]
  cases hp : (HttpError.service failure).handled correlation with
  | ok problem =>
    rw [handleError_eq hp]
    exact run_observed h _ _ _
  | error failure' =>
    rw [handleError, hp]
    exact ⟨(s₂, clock), h, rfl⟩

/-- What a request makes of the outcome of its call. -/
def ending (request : HttpRequest ν) (correlation : String) :
    Except Failure Workflow → Program (HttpOp ν) HttpReply Failure (Response ν)
  | .ok workflow => middleware request correlation
      (orRaise ((WorkflowResponse.fromDomain workflow).mapError .service) >>= fun response =>
        pure (request.endpoint.successCode, .workflow response))
  | .error failure => middleware request correlation (.raise (.service failure))

theorem middleware_workflowResponse (call : Call) :
    middleware request correlation (workflowResponse env request.endpoint.successCode call) =
      (call.body env).within httpEmbedding (ending request correlation) := by
  rw [middleware, workflowResponse, inner_handle]
  refine congrArg _ (funext fun o => ?_)
  cases o <;> rfl

theorem run_ending (h : Carried rate s₂ s) (o : Except Failure Workflow) :
    ∃ x, Carried rate x.1 s ∧ (ending request correlation o).run
      (httpTimed env settings durations tid) (s₂, clock) = (request.answer correlation o, x) := by
  cases o with
  | error failure => exact run_error h failure
  | ok workflow =>
    rw [ending, HttpRequest.answer, Except.bind]
    cases WorkflowResponse.fromDomain workflow with
    | ok response => exact run_observed h _ _ _
    | error failure => exact run_error h failure

/-- A call of the service within a request is the call alone. -/
theorem run_workflowResponse (h : Carried rate s₂ s) (call : Call) :
    ∃ x, Carried rate x.1 (answer env tid s call fun n => (clock n).1).2 ∧
      (middleware request correlation (workflowResponse env request.endpoint.successCode call)).run
          (httpTimed env settings durations tid) (s₂, clock) =
        (request.answer correlation (answer env tid s call fun n => (clock n).1).1, x) := by
  have step : ∀ (t : (Datetime × Datetime) × ℚ) (op : Op) (s₂ : HttpState ν) (s : State),
      Carried rate s₂ s → Carried rate
        (httpExec env durations tid (.service op)
          ((application env settings durations).tick t s₂)).2
        (exec env tid op ((system env).tick t.1 s)).2 ∧
      (httpExec env durations tid (.service op)
        ((application env settings durations).tick t s₂)).1 =
          (exec env tid op ((system env).tick t.1 s)).1 :=
    fun t op s₂ s hs => ⟨⟨(hs.1.exec t.1 op).1, hs.2⟩, (hs.1.exec t.1 op).2⟩
  obtain ⟨s₂', clock', h', hrun⟩ :=
    run_within (e := httpEmbedding) step (call.body env) (ending request correlation) h clock
  rw [middleware_workflowResponse, hrun]
  exact run_ending h' _

/-- **A mutation alone is its call alone**, when the limiter lets it through. -/
theorem alone_post (hcall : request.serviceCall = some call)
    (hpost : request.endpoint.method = "POST") (h : Serves s₂.service s)
    (hroom : (s₂.rate.limiter.allow (clock 0).2 call.principal.subject).1 = true) :
    ∃ s₂', Serves s₂'.service (answer env tid s call fun n => (clock (n + 2)).1).2 ∧
      s₂'.rate = s₂.rate.step ⟨(clock 0).2, call.principal.subject⟩ ∧
      (application env settings durations).alone tid request s₂ clock =
        (request.answer call.correlationId
          (answer env tid s call fun n => (clock (n + 2)).1).1, s₂') := by
  -- the state once the limiter has been asked
  let asked : HttpState ν :=
    (httpExec env durations tid (.allow (clock 0).2 call.principal.subject)
      ((application env settings durations).tick (clock 1)
        ((application env settings durations).tick (clock 0) s₂))).2
  have hasked : Carried asked.rate asked s := ⟨(h.later _ _).later _ _, rfl⟩
  obtain ⟨x, hx, hrun⟩ := run_workflowResponse hasked call
  refine ⟨x.1, hx.1, hx.2, ?_⟩
  have hasks : (secureObservableBoundary env settings request).run
      (httpTimed env settings durations tid) (s₂, clock) =
      (middleware request call.correlationId
        (workflowResponse env request.endpoint.successCode call)).run
      (httpTimed env settings durations tid) (asked, fun n => clock (n + 2)) := by
    rw [boundary_post hcall hpost]
    change (middleware _ _ ((if (s₂.rate.limiter.allow (clock 0).2 call.principal.subject).1 = true
      then _ else _) >>= _)).run _ _ = _
    rw [if_pos hroom]
    rfl
  exact congrArg (fun r => (r.1, r.2.1)) (hasks.trans hrun)

end Run

end AgenticDelivery.Api
