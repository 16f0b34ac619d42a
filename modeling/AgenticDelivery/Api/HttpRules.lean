import AgenticDelivery.Api.HttpService

/-! # What a request does outside the service

A mutation asks the limiter before it calls the service; the endpoints for the
operations look at the role and record the read before they answer; and whatever a
request answers, it has recorded exactly that, and nothing after it. -/
namespace AgenticDelivery.Api
open AgenticDelivery.Atomic AgenticDelivery.Data AgenticDelivery.Governance AgenticDelivery.Runtime
open Program

variable {ν : Type} {env : Environment} {settings : ApiSettings} {durations : Durations ν}
  {request : HttpRequest ν} {correlation : String} {log : List (HttpEvent ν)}

/-! ## Rules -/

/-- The identity behind the credential. -/
def HttpRequest.principal (request : HttpRequest ν) : Option Principal :=
  request.credential.bind verify

/-- What the telemetry keeps of a request, but for the time. -/
structure Observation (ν : Type) where
  method : String
  route : String
  statusCode : Int
  durationMs : ν
  correlationId : String

def RequestObservation.untimed (item : RequestObservation ν) : Observation ν where
  method := item.method
  route := item.route
  statusCode := item.statusCode
  durationMs := item.durationMs
  correlationId := item.correlationId

/-- What is to be kept of a request that is answered so. -/
def HttpRequest.observation (durations : Durations ν) (request : HttpRequest ν)
    (response : Response ν) : Observation ν where
  method := request.endpoint.method
  route := if request.correlation = none then "<rejected>" else request.endpoint.route
  statusCode := response.statusCode
  durationMs := InMemoryOperationalTelemetry.storedDuration durations request.durationMs
  correlationId := response.correlationId

@[simp] def observationOf (durations : Durations ν) : HttpEvent ν → Option (Observation ν)
  | ⟨.telemetryRecord method route statusCode durationMs correlationId, _⟩ =>
    some ⟨method, route, statusCode,
      InMemoryOperationalTelemetry.storedDuration durations durationMs, correlationId⟩
  | _ => none

/-- What a request has recorded of itself. -/
def observations (durations : Durations ν) (log : List (HttpEvent ν)) : List (Observation ν) :=
  log.filterMap (observationOf durations)

/-- The records of the endpoints for the operations: the action and its outcome. -/
inductive Operation (principal : Principal) : Endpoint → String → String → Prop
  | metricsDenied (role : principal.roles ∩ {.operator, .administrator} = ∅) :
      Operation principal .operationalMetrics "operations.metrics.read" "denied"
  | metrics (role : principal.roles ∩ {.operator, .administrator} ≠ ∅) :
      Operation principal .operationalMetrics "operations.metrics.read" "allowed"
  | auditDenied {limit} (role : .administrator ∉ principal.roles) :
      Operation principal (.auditEvents limit) "operations.audit.read" "denied"
  | audit {limit} (role : .administrator ∈ principal.roles) :
      Operation principal (.auditEvents limit) "operations.audit.read" "allowed"

/-- What must be the case when a request makes an operation. -/
def HttpRequest.Fits (request : HttpRequest ν) (log : List (HttpEvent ν)) : HttpOp ν → Prop
  | .service _ => request.serviceCall ≠ none ∧ (request.endpoint.method = "POST" →
      ∃ principal now, request.principal = some principal ∧
        (⟨.allow now principal.subject, true⟩ : HttpEvent ν) ∈ log)
  | .auditRecord action outcome subject resourceId correlationId =>
    ∃ principal, request.principal = some principal ∧ subject = some principal.subject ∧
      resourceId = none ∧ request.correlation = some correlationId ∧
      Operation principal request.endpoint action outcome
  | .allow now subject => log = [⟨.monotonic, now⟩] ∧
      ∃ principal, request.principal = some principal ∧ subject = principal.subject
  | _ => True

/-- The request is of a principal that may, and it has recorded the action as allowed. -/
def Entitled (request : HttpRequest ν) (log : List (HttpEvent ν)) (action : String)
    (may : Principal → Prop) : Prop :=
  ∃ principal correlation, request.principal = some principal ∧ may principal ∧
    request.correlation = some correlation ∧
    (⟨.auditRecord action "allowed" (some principal.subject) none correlation, ()⟩ :
      HttpEvent ν) ∈ log

/-- The limiter has refused the request. -/
def Refused (request : HttpRequest ν) (log : List (HttpEvent ν)) : Prop :=
  ∃ principal now, request.principal = some principal ∧
    (⟨.allow now principal.subject, false⟩ : HttpEvent ν) ∈ log

/-- What stands behind a body: who may be shown the operations, and what is shown; and
who is told to retry later. -/
def Told (request : HttpRequest ν) (log : List (HttpEvent ν)) : Body ν → Prop
  | .metrics snapshot => (⟨.telemetrySnapshot, snapshot⟩ : HttpEvent ν) ∈ log ∧
      Entitled request log "operations.metrics.read" fun principal =>
        principal.roles ∩ {.operator, .administrator} ≠ ∅
  | .auditEvents page => (∃ (limit : Nat) (events : List AuditEvent), 1 ≤ limit ∧ limit ≤ 100 ∧
      (⟨.auditEvents, events⟩ : HttpEvent ν) ∈ log ∧
      page = (sliceFrom (-limit) events).map AuditEvent.response) ∧
      Entitled request log "operations.audit.read" fun principal => .administrator ∈ principal.roles
  | .problem response => response.status = 429 → Refused request log
  | _ => True

/-- What stands behind an error. -/
def Raised (request : HttpRequest ν) (log : List (HttpEvent ν)) : HttpError → Prop
  | .requestRateExceeded _ => Refused request log
  | _ => True

/-- The rules of an endpoint: it records nothing of the request. -/
def endpointRules (durations : Durations ν) (request : HttpRequest ν) :
    Rules (HttpOp ν) HttpReply HttpError (Int × Body ν) where
  may _ _ := True
  fits log op := observations durations log = [] ∧ request.Fits log op
  ends
    | log, .ok response => observations durations log = [] ∧ Told request log response.2
    | log, .error error => observations durations log = [] ∧ Raised request log error

/-- The rules of a request: its last operation records what it answers, and an error
that no handler takes is not recorded. -/
def requestRules (durations : Durations ν) (request : HttpRequest ν) :
    Rules (HttpOp ν) HttpReply Failure (Response ν) where
  may _ _ := True
  fits log op := observations durations log = [] ∧ request.Fits log op
  ends
    | log, .ok response => observations durations log = [request.observation durations response] ∧
        Told request log response.body
    | log, .error _ => observations durations log = []

section Logs
variable (l l' : List (HttpEvent ν)) (e : HttpEvent ν)

@[simp] theorem observations_append :
    observations durations (l ++ l') = observations durations l ++ observations durations l' :=
  List.filterMap_append

@[simp] theorem observations_nil : observations durations ([] : List (HttpEvent ν)) = [] := rfl

@[simp] theorem observations_cons : observations durations (e :: l) =
    (observationOf durations e).toList ++ observations durations l := by
  rw [observations, List.filterMap_cons]
  cases observationOf durations e <;> rfl

end Logs

/-- The operations of the service record nothing of the request. -/
theorem observations_service {more : List (HttpEvent ν)}
    (h : ∀ x ∈ more, (httpEmbedding.event x).isSome) : observations durations more = [] := by
  refine List.filterMap_eq_nil_iff.mpr fun x hx => ?_
  have := h x hx
  obtain ⟨op, r⟩ := x
  cases op with
  | telemetryRecord => cases this
  | _ => rfl

theorem Entitled.append {action : String} {may : Principal → Prop}
    (h : Entitled request log action may) (more : List (HttpEvent ν)) :
    Entitled request (log ++ more) action may := by
  obtain ⟨principal, correlation, hp, hmay, hc, hm⟩ := h
  exact ⟨principal, correlation, hp, hmay, hc, List.mem_append_left _ hm⟩

theorem Told.append {body : Body ν} (h : Told request log body) (more : List (HttpEvent ν)) :
    Told request (log ++ more) body := by
  cases body with
  | metrics snapshot => exact ⟨List.mem_append_left _ h.1, h.2.append more⟩
  | auditEvents page =>
    obtain ⟨⟨limit, events, h1, h2, hm, h⟩, hentitled⟩ := h
    exact ⟨⟨limit, events, h1, h2, List.mem_append_left _ hm, h⟩, hentitled.append more⟩
  | problem response =>
    intro hstatus
    obtain ⟨principal, now, hp, hm⟩ := h hstatus
    exact ⟨principal, now, hp, List.mem_append_left _ hm⟩
  | _ => trivial

/-! ## Endpoints -/

/-- The dependencies of a mutation: it goes on when the limiter has let it. -/
theorem keeps_mutation {k : Principal × String × String → Http ν (Int × Body ν)}
    (hc : request.correlation = some correlation)
    (h : ∀ principal key now, request.principal = some principal → request.key = some key →
      (k (principal, correlation, key)).Keeps (endpointRules durations request)
        [⟨.monotonic, now⟩, ⟨.allow now principal.subject, true⟩]) :
    (mutationDependencies request correlation >>= k).Keeps
      (endpointRules durations request) [] := by
  cases hp : request.principal with
  | none =>
    rw [mutationDependencies, authenticatedPrincipal_none hp]
    exact ⟨rfl, trivial⟩
  | some principal =>
    cases hk : request.key with
    | none =>
      obtain ⟨detail, hkey⟩ := idempotencyKey_none hk
      rw [mutationDependencies, authenticatedPrincipal_eq hp, correlationId_eq hc, hkey]
      exact ⟨rfl, trivial⟩
    | some key =>
      rw [mutationDependencies_eq hp hc hk]
      refine ⟨⟨rfl, trivial⟩, fun now _ =>
        ⟨⟨by simp, rfl, principal, hp, rfl⟩, fun allowed _ => ?_⟩⟩
      cases allowed with
      | true => exact h principal key now hp hk
      | false => exact ⟨rfl, principal, now, hp, .tail _ List.mem_cons_self⟩

/-- A call of the service and its workflow. -/
theorem keeps_workflowResponse {call : Call} {statusCode : Int}
    (hlog : observations durations log = []) (hcall : request.serviceCall ≠ none)
    (hpost : request.endpoint.method = "POST" → ∃ principal now,
      request.principal = some principal ∧
        (⟨.allow now principal.subject, true⟩ : HttpEvent ν) ∈ log) :
    (workflowResponse env statusCode call).Keeps (endpointRules durations request) log := by
  have hnone : ∀ more : List (HttpEvent ν), (∀ x ∈ more, (httpEmbedding.event x).isSome) →
      observations durations (log ++ more) = [] := by
    intro more hm
    rw [observations_append, hlog, observations_service hm]
    rfl
  unfold workflowResponse
  refine .inner (fun more op hm => ⟨hnone more hm, hcall, fun hmethod => ?_⟩)
    (fun more w hm => ?_) fun more _ hm => ⟨hnone more hm, trivial⟩
  · obtain ⟨principal, now, hp, hallow⟩ := hpost hmethod
    exact ⟨principal, now, hp, List.mem_append_left _ hallow⟩
  · cases WorkflowResponse.fromDomain w with
    | ok response => exact ⟨hnone more hm, trivial⟩
    | error failure => exact ⟨hnone more hm, trivial⟩

theorem keeps_operationalMetrics (he : request.endpoint = .operationalMetrics)
    (hc : request.correlation = some correlation) :
    (operationalMetrics request correlation).Keeps (endpointRules durations request) [] := by
  unfold operationalMetrics
  cases hp : request.principal with
  | none =>
    rw [authenticatedPrincipal_none hp]
    exact ⟨rfl, trivial⟩
  | some principal =>
    rw [authenticatedPrincipal_eq hp, correlationId_eq hc]
    simp only [orRaise_ok, done_bind]
    split
    · rename_i hrole
      refine ⟨⟨rfl, principal, hp, rfl, rfl, hc, ?_⟩, fun _ _ => ⟨rfl, trivial⟩⟩
      rw [he]
      exact .metricsDenied hrole
    · rename_i hrole
      refine ⟨⟨rfl, principal, hp, rfl, rfl, hc, ?_⟩, fun _ _ => ⟨⟨rfl, trivial⟩, fun snapshot _ =>
        ⟨rfl, List.mem_append_right _ List.mem_cons_self, principal, correlation, hp, hrole, hc,
          List.mem_cons_self⟩⟩⟩
      rw [he]
      exact .metrics hrole

theorem keeps_auditEvents {limit : Option { limit : Nat // 1 ≤ limit ∧ limit ≤ 100 }}
    (he : request.endpoint = .auditEvents limit) (hc : request.correlation = some correlation) :
    (auditEvents request correlation limit).Keeps (endpointRules durations request) [] := by
  unfold auditEvents
  cases hp : request.principal with
  | none =>
    rw [authenticatedPrincipal_none hp]
    exact ⟨rfl, trivial⟩
  | some principal =>
    rw [authenticatedPrincipal_eq hp, correlationId_eq hc]
    simp only [orRaise_ok, done_bind]
    cases limit with
    | none => exact ⟨rfl, trivial⟩
    | some limit =>
      dsimp only
      split
      · rename_i hrole
        refine ⟨⟨rfl, principal, hp, rfl, rfl, hc, ?_⟩, fun _ _ => ⟨rfl, trivial⟩⟩
        rw [he]
        exact .auditDenied hrole
      · rename_i hrole
        rw [not_not] at hrole
        refine ⟨⟨rfl, principal, hp, rfl, rfl, hc, ?_⟩, fun _ _ => ⟨⟨rfl, trivial⟩, fun events _ =>
          ⟨rfl, ⟨limit, events, limit.2.1, limit.2.2, List.mem_append_right _ List.mem_cons_self,
            rfl⟩, principal, correlation, hp, hrole, hc, List.mem_cons_self⟩⟩⟩
        rw [he]
        exact .audit hrole

theorem keeps_withPayload {α : Type} {payload : Payload α}
    {endpoint : α → Principal × String × String → Http ν (Int × Body ν)}
    (hc : request.correlation = some correlation)
    (h : ∀ value principal key now, payload = .valid value → request.principal = some principal →
      request.key = some key →
      (endpoint value (principal, correlation, key)).Keeps (endpointRules durations request)
        [⟨.monotonic, now⟩, ⟨.allow now principal.subject, true⟩]) :
    (withPayload payload (mutationDependencies request correlation) endpoint).Keeps
      (endpointRules durations request) [] := by
  cases payload with
  | unreadable => exact ⟨rfl, trivial⟩
  | invalid => exact keeps_mutation hc fun _ _ _ _ _ => ⟨rfl, trivial⟩
  | valid value => exact keeps_mutation hc fun p k now hp hk => h value p k now rfl hp hk

/-- **Every endpoint keeps the rules.** -/
theorem keeps_callEndpoint (hc : request.correlation = some correlation) :
    (callEndpoint env settings request correlation).Keeps (endpointRules durations request) [] := by
  -- behind the limiter the service is called for the accepted request
  have mutation : ∀ {statusCode : Int} {call : Call} {principal : Principal} {now : ℚ},
      request.principal = some principal → request.serviceCall = some call →
      (workflowResponse env statusCode call).Keeps (endpointRules durations request)
        [⟨.monotonic, now⟩, ⟨.allow now principal.subject, true⟩] := by
    intro statusCode call principal now hp hcall
    refine keeps_workflowResponse rfl (by rw [hcall]; simp) fun _ => ⟨principal, now, hp, ?_⟩
    exact .tail _ List.mem_cons_self
  unfold callEndpoint
  cases he : request.endpoint with
  | framework | health | ready => exact ⟨rfl, trivial⟩
  | operationalMetrics => exact keeps_operationalMetrics he hc
  | auditEvents limit => exact keeps_auditEvents he hc
  | session =>
    dsimp only [Api.session]
    cases hp : request.principal with
    | none =>
      rw [authenticatedPrincipal_none hp]
      exact ⟨rfl, trivial⟩
    | some principal =>
      rw [authenticatedPrincipal_eq hp]
      exact ⟨rfl, trivial⟩
  | createServiceRequest payload =>
    refine keeps_withPayload hc fun value p k now hv hp hk => mutation hp ?_
    rw [HttpRequest.principal] at hp
    simp [HttpRequest.serviceCall, he, hv, hp, hk, hc]
  | planWorkflow workflowId =>
    refine keeps_mutation hc fun p k now hp hk => mutation hp ?_
    rw [HttpRequest.principal] at hp
    simp [HttpRequest.serviceCall, he, hp, hk, hc]
  | decideWorkflowApproval workflowId payload =>
    refine keeps_withPayload hc fun value p k now hv hp hk => mutation hp ?_
    rw [HttpRequest.principal] at hp
    simp [HttpRequest.serviceCall, he, hv, hp, hk, hc]
  | processNextLocalTask =>
    refine keeps_mutation hc fun p k now hp hk => mutation hp ?_
    rw [HttpRequest.principal] at hp
    simp [HttpRequest.serviceCall, he, hp, hk, hc]
  | getWorkflow workflowId =>
    dsimp only [Api.getWorkflow]
    cases hp : request.principal with
    | none =>
      rw [authenticatedPrincipal_none hp]
      exact ⟨rfl, trivial⟩
    | some principal =>
      rw [authenticatedPrincipal_eq hp, correlationId_eq hc]
      rw [HttpRequest.principal] at hp
      refine keeps_workflowResponse rfl ?_ fun hpost => ?_
      · simp [HttpRequest.serviceCall, he, hp, hc]
      · rw [he] at hpost
        exact absurd hpost (by decide : "GET" ≠ "POST")

/-! ## Requests -/

/-- A response goes out when it has been recorded. -/
theorem keeps_observed {route : String} {response : Int × Body ν}
    (hroute : route = if request.correlation = none then "<rejected>" else request.endpoint.route)
    (hlog : observations durations log = []) (htold : Told request log response.2) :
    (observed request route correlation response).Keeps (requestRules durations request) log := by
  subst hroute
  refine ⟨⟨hlog, trivial⟩, fun _ _ => ⟨?_, htold.append _⟩⟩
  rw [observations_append, hlog]
  rfl

theorem ErrorKind.statusCode_ne (kind : ErrorKind) : kind.statusCode ≠ 429 := by
  cases kind <;> decide

/-- Only the limiter tells to retry later. -/
theorem told_of_handled {error : HttpError} {problem : ProblemResponse}
    (h : error.handled correlation = .ok problem) (hraised : Raised request log error) :
    Told request log (.problem problem) := by
  intro hstatus
  cases error with
  | requestRateExceeded detail => exact hraised
  | service failure =>
    cases failure with
    | application kind detail =>
      cases h
      exact absurd hstatus kind.statusCode_ne
    | valueError | keyError | indexError | runtime => cases h
  | authenticationRequired detail =>
    cases h
    exact absurd hstatus (by decide : (401 : Int) ≠ 429)
  | invalidRequestMetadata detail =>
    cases h
    exact absurd hstatus (by decide : (400 : Int) ≠ 429)
  | requestValidation =>
    cases h
    exact absurd hstatus (by decide : (422 : Int) ≠ 429)

/-- **Every request keeps the rules.** -/
theorem keeps_boundary (env : Environment) (settings : ApiSettings) (durations : Durations ν)
    (request : HttpRequest ν) : (secureObservableBoundary env settings request).Keeps
      (requestRules durations request) [] := by
  unfold secureObservableBoundary
  cases hc : request.correlation with
  | none => exact keeps_observed (by rw [if_pos hc]) rfl fun h => absurd h (by decide)
  | some correlation =>
    have hroute : request.endpoint.route =
        if request.correlation = none then "<rejected>" else request.endpoint.route := by
      rw [hc]
      rfl
    refine (keeps_callEndpoint hc).handle (fun _ _ _ => trivial) (fun _ _ h => h)
      (fun log response h => keeps_observed hroute h.1 h.2) fun log error h => ?_
    unfold handleError
    cases hhandled : error.handled correlation with
    | ok problem => exact keeps_observed hroute h.1 (told_of_handled hhandled h.2)
    | error failure => exact h.1

/-- What the requests of a run have done, and will have done when they end. -/
theorem Served.keeps {c : HttpConfig ν} (hc : Served env settings durations c) {tid : Nat}
    {t : HttpThread ν} (ht : c.threads[tid]? = some t) :
    Judged (requestRules durations t.call) t.log ∧
      t.rest.Keeps (requestRules durations t.call) t.log := by
  obtain ⟨now, utc, monotonic, h⟩ := hc
  exact h.judged rfl (keeps_boundary env settings durations) (fun _ _ _ _ _ _ _ _ => trivial) ht

end AgenticDelivery.Api
