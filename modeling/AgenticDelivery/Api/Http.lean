import AgenticDelivery.Api.RateLimiter
import AgenticDelivery.Api.Responses
import AgenticDelivery.Atomic.Layer

/-! # The HTTP application

`create_app` of `main.py` and the dependencies of `security.py`: what a request does
between the headers it comes with and the response it gets, as a program over the
service, the rate limiter, the audit sink and the telemetry. FastAPI calls the
dependencies of an endpoint in the order of its parameters and looks at its other
parameters and its body afterwards; only a body that is no JSON is refused before. -/
namespace AgenticDelivery.Api
open AgenticDelivery.Atomic AgenticDelivery.Data AgenticDelivery.Governance AgenticDelivery.Runtime
open Program

/-! ## Requests -/

def metadataChar (c : Char) : Bool :=
  c.isAlphanum || c == '.' || c == '_' || c == ':' || c == '-'

/-- `METADATA_PATTERN.fullmatch` -/
def Metadata (text : String) : Prop :=
  1 ≤ text.length ∧ text.length ≤ 128 ∧ text.toList.all metadataChar = true

instance (text : String) : Decidable (Metadata text) := inferInstanceAs (Decidable (_ ∧ _ ∧ _))

/-- An accepted `ApprovalRequest`. -/
structure ApprovalRequest where
  decision : Decision
  reason : String
  reason_length : 3 ≤ reason.length ∧ reason.length ≤ 500

/-- A body: no JSON, JSON that its model does not accept, or an accepted value. -/
inductive Payload (α : Type)
  | unreadable
  | invalid
  | valid (value : α)

/-- The routes of the application, with what is in their path, query and body. -/
inductive Endpoint
  /-- what FastAPI answers itself: no such path or method, the documentation, a preflight -/
  | framework (method route : String) (statusCode : Int)
  | health
  | ready
  | operationalMetrics
  | auditEvents (limit : Option { limit : Nat // 1 ≤ limit ∧ limit ≤ 100 })
  | session
  | createServiceRequest (payload : Payload CreateServiceRequest)
  | planWorkflow (workflowId : String)
  | decideWorkflowApproval (workflowId : String) (payload : Payload ApprovalRequest)
  | processNextLocalTask
  | getWorkflow (workflowId : String)

/-- `request.method` -/
def Endpoint.method : Endpoint → String
  | .framework method _ _ => method
  | .createServiceRequest _ | .planWorkflow _ | .decideWorkflowApproval _ _
  | .processNextLocalTask => "POST"
  | _ => "GET"

/-- `getattr(route, "path", "<unmatched>")` -/
def Endpoint.route : Endpoint → String
  | .framework _ route _ => route
  | .health => "/health"
  | .ready => "/ready"
  | .operationalMetrics => "/v1/operations/metrics"
  | .auditEvents _ => "/v1/operations/audit-events"
  | .session => "/v1/session"
  | .createServiceRequest _ => "/v1/service-requests"
  | .planWorkflow _ => "/v1/workflows/{workflow_id}/plan"
  | .decideWorkflowApproval _ _ => "/v1/workflows/{workflow_id}/approval"
  | .processNextLocalTask => "/v1/local/tasks/process-next"
  | .getWorkflow _ => "/v1/workflows/{workflow_id}"

structure HttpRequest (ν : Type) where
  endpoint : Endpoint
  /-- the credential of a bearer authorization -/
  credential : Option String
  /-- `X-Correlation-ID` -/
  correlationHeader : Option String
  /-- `Idempotency-Key` -/
  idempotencyHeader : Option String
  /-- the `str(uuid4())` of the request -/
  uuid : String
  uuid_metadata : Metadata uuid
  /-- what the two readings of `perf_counter` make -/
  durationMs : ν

structure Response (ν : Type) where
  statusCode : Int
  body : Body ν
  /-- the header `X-Correlation-ID` -/
  correlationId : String

/-- The settings of a safe profile: local authentication outside production. -/
structure ApiSettings where
  environment : String := "local"
  rateLimitRequests : Nat := 100
  rateLimitWindowSeconds : Nat := 60
  environment_safe : environment ∈ ["local", "development", "staging"] := by decide
  requests_range : 1 ≤ rateLimitRequests ∧ rateLimitRequests ≤ 10000 := by decide
  window_range : 1 ≤ rateLimitWindowSeconds ∧ rateLimitWindowSeconds ≤ 3600 := by decide

/-! ## Ports -/

structure HttpState (ν : Type) where
  service : State
  rate : RateRun
  telemetry : InMemoryOperationalTelemetry ν := {}
  /-- what `monotonic()` reads -/
  monotonic : ℚ

inductive HttpOp (ν : Type)
  /-- an operation of the workflow service -/
  | service (op : Op)
  /-- `audit_sink.record`, from an endpoint -/
  | auditRecord (action outcome : String) (subject resourceId : Option String)
      (correlationId : String)
  /-- `audit_sink.events` -/
  | auditEvents
  /-- the clock of the rate limiter -/
  | monotonic
  /-- `rate_limiter.allow`, with the clock it has read -/
  | allow (now : ℚ) (subject : String)
  | telemetryRecord (method route : String) (statusCode : Int) (durationMs : ν)
      (correlationId : String)
  | telemetrySnapshot

variable {ν : Type}

@[reducible] def HttpReply : HttpOp ν → Type
  | .service op => Reply op
  | .auditRecord .. | .telemetryRecord .. => Unit
  | .auditEvents => List AuditEvent
  | .monotonic => ℚ
  | .allow .. => Bool
  | .telemetrySnapshot => TelemetrySnapshot ν

/-- One atomic step of request `tid`. -/
def httpExec (env : Environment) (durations : Durations ν) (tid : Nat) :
    (op : HttpOp ν) → HttpState ν → HttpReply op × HttpState ν
  | .service op, s =>
    let r := exec env tid op s.service
    (r.1, { s with service := r.2 })
  | .auditRecord action outcome subject resourceId correlationId, s =>
    let audit := recordAudit s.service.audit s.service.utc action outcome subject resourceId
      correlationId
    ((), { s with service := { s.service with audit } })
  | .auditEvents, s => (s.service.audit, s)
  | .monotonic, s => (s.monotonic, s)
  | .allow now subject, s =>
    ((s.rate.limiter.allow now subject).1, { s with rate := s.rate.step ⟨now, subject⟩ })
  | .telemetryRecord method route statusCode durationMs correlationId, s =>
    let call := { method, route, statusCode, durationMs, correlationId, now := s.service.utc }
    ((), { s with telemetry := s.telemetry.record durations call })
  | .telemetrySnapshot, s => (s.telemetry.snapshot durations, s)

/-- The operations of the service among those of the application. -/
def httpEmbedding : Embedding Op Reply (HttpOp ν) HttpReply where
  op := .service
  reply _ r := r
  event
    | ⟨.service op, r⟩ => some ⟨op, r⟩
    | _ => none
  event_op _ _ := rfl

/-- The code of a request. -/
abbrev Http (ν α : Type) := Program (HttpOp ν) HttpReply HttpError α

/-! ## Dependencies -/

/-- `LocalIdentityProvider.verify`: the entries of `LOCAL_IDENTITIES` -/
def verify (credential : String) : Option Principal :=
  if credential = "local-requester-token" then some localRequester
  else if credential = "local-reviewer-token" then some localReviewer
  else if credential = "local-operator-token" then some localOperator
  else if credential = "local-administrator-token" then some localAdministrator
  else none

def authenticatedPrincipal (credential : Option String) : Except HttpError Principal :=
  match credential.bind verify with
  | none => .error (.authenticationRequired "A valid bearer credential is required.")
  | some principal => .ok principal

/-- `correlation_id`; `generated` is what the middleware has put into the request's state. -/
def correlationId (value : Option String) (generated : String) : Except HttpError String :=
  match value with
  | none => .ok generated
  | some value =>
    if Metadata value then .ok value
    else .error (.invalidRequestMetadata "X-Correlation-ID has an invalid format.")

def idempotencyKey (value : Option String) : Except HttpError String :=
  match value with
  | none =>
    .error (.invalidRequestMetadata "Idempotency-Key must contain 8 to 128 safe characters.")
  | some value =>
    if value.length < 8 ∨ ¬Metadata value then
      .error (.invalidRequestMetadata "Idempotency-Key must contain 8 to 128 safe characters.")
    else .ok value

def enforceMutationRateLimit (principal : Principal) : Http ν Unit := do
  let now ← perform HttpOp.monotonic
  let allowed ← perform (HttpOp.allow now principal.subject)
  if allowed then pure ()
  else
    .raise (.requestRateExceeded
      "The local mutation limit was reached. Retry after the configured window.")

/-! ## Endpoints -/

section Endpoints
variable (env : Environment) (settings : ApiSettings) (request : HttpRequest ν) (generated : String)

/-- A call of the workflow service, and its workflow as the body of the response. -/
def workflowResponse (statusCode : Int) (call : Call) : Http ν (Int × Body ν) := do
  let workflow ← (call.body env).inner httpEmbedding .service
  let response ← orRaise ((WorkflowResponse.fromDomain workflow).mapError .service)
  pure (statusCode, .workflow response)

/-- The dependencies of the endpoints that change something. -/
def mutationDependencies : Http ν (Principal × String × String) := do
  let principal ← orRaise (authenticatedPrincipal request.credential)
  let correlation ← orRaise (correlationId request.correlationHeader generated)
  let idempotency ← orRaise (idempotencyKey request.idempotencyHeader)
  enforceMutationRateLimit principal
  pure (principal, correlation, idempotency)

/-- The dependencies, and the body behind them. -/
def withPayload {α β : Type} (payload : Payload α) (dependencies : Http ν β)
    (endpoint : α → β → Http ν (Int × Body ν)) : Http ν (Int × Body ν) :=
  match payload with
  | .unreadable => .raise .requestValidation
  | .invalid => dependencies >>= fun _ => .raise .requestValidation
  | .valid value => dependencies >>= endpoint value

def operationalMetrics : Http ν (Int × Body ν) := do
  let principal ← orRaise (authenticatedPrincipal request.credential)
  let correlation ← orRaise (correlationId request.correlationHeader generated)
  if principal.roles ∩ {.operator, .administrator} = ∅ then do
    perform (HttpOp.auditRecord "operations.metrics.read" "denied" (some principal.subject) none
      correlation)
    .raise (.service (.application .permissionDenied
      "The current role cannot inspect operational metrics."))
  else do
    perform (HttpOp.auditRecord "operations.metrics.read" "allowed" (some principal.subject) none
      correlation)
    let snapshot ← perform HttpOp.telemetrySnapshot
    pure (200, .metrics snapshot)

def auditEvents (limit : Option { limit : Nat // 1 ≤ limit ∧ limit ≤ 100 }) :
    Http ν (Int × Body ν) := do
  let principal ← orRaise (authenticatedPrincipal request.credential)
  let correlation ← orRaise (correlationId request.correlationHeader generated)
  match limit with
  | none => .raise .requestValidation
  | some limit =>
    if .administrator ∉ principal.roles then do
      perform (HttpOp.auditRecord "operations.audit.read" "denied" (some principal.subject) none
        correlation)
      .raise (.service (.application .permissionDenied
        "The current role cannot inspect audit evidence."))
    else do
      perform (HttpOp.auditRecord "operations.audit.read" "allowed" (some principal.subject) none
        correlation)
      let events ← perform HttpOp.auditEvents
      pure (200, .auditEvents ((sliceFrom (-limit) events).map AuditEvent.response))

def session : Http ν (Int × Body ν) := do
  let principal ← orRaise (authenticatedPrincipal request.credential)
  pure (200, .session (.fromPrincipal principal))

def createServiceRequest (payload : Payload CreateServiceRequest) : Http ν (Int × Body ν) :=
  withPayload payload (mutationDependencies request generated)
    fun payload (principal, correlation, idempotency) =>
      workflowResponse env 202 (.create (payload.arguments principal idempotency correlation))

def planWorkflow (workflowId : String) : Http ν (Int × Body ν) := do
  let (principal, correlation, _) ← mutationDependencies request generated
  workflowResponse env 200 (.plan principal workflowId correlation)

def decideWorkflowApproval (workflowId : String) (payload : Payload ApprovalRequest) :
    Http ν (Int × Body ν) :=
  withPayload payload (mutationDependencies request generated)
    fun payload (principal, correlation, idempotency) =>
      workflowResponse env 200 (.decideApproval principal workflowId payload.decision payload.reason
        idempotency correlation)

def processNextLocalTask : Http ν (Int × Body ν) := do
  let (principal, correlation, _) ← mutationDependencies request generated
  workflowResponse env 200 (.processNextTask principal correlation)

def getWorkflow (workflowId : String) : Http ν (Int × Body ν) := do
  let principal ← orRaise (authenticatedPrincipal request.credential)
  let correlation ← orRaise (correlationId request.correlationHeader generated)
  workflowResponse env 200 (.get principal workflowId correlation)

/-- The endpoint of a request: the status and the body of its response, or an error. -/
def callEndpoint : Http ν (Int × Body ν) :=
  match request.endpoint with
  | .framework _ _ statusCode => pure (statusCode, .framework)
  | .health => pure (200, .health settings.environment)
  | .ready => pure (200, .ready ["audit", "identity", "rateLimit", "repository", "taskQueue",
      "telemetry"])
  | .operationalMetrics => operationalMetrics request generated
  | .auditEvents limit => auditEvents request generated limit
  | .session => session request
  | .createServiceRequest payload => createServiceRequest env request generated payload
  | .planWorkflow workflowId => planWorkflow env request generated workflowId
  | .decideWorkflowApproval workflowId payload =>
    decideWorkflowApproval env request generated workflowId payload
  | .processNextLocalTask => processNextLocalTask env request generated
  | .getWorkflow workflowId => getWorkflow env request generated workflowId

end Endpoints

/-! ## The middleware -/

/-- The exception handlers. -/
def handleError (correlation : String) (error : HttpError) :
    Program (HttpOp ν) HttpReply Failure (Int × Body ν) :=
  match error.handled correlation with
  | .ok problem => .done (problem.status, .problem problem)
  | .error failure => .raise failure

/-- The last part of the middleware: the response is recorded and goes out. -/
def observed (request : HttpRequest ν) (route correlation : String) (response : Int × Body ν) :
    Program (HttpOp ν) HttpReply Failure (Response ν) := do
  perform (HttpOp.telemetryRecord request.endpoint.method route response.1 request.durationMs
    correlation)
  pure { statusCode := response.1, body := response.2, correlationId := correlation }

/-- The correlation id of the request's state; `none` when the header is not accepted. -/
def HttpRequest.correlation (request : HttpRequest ν) : Option String :=
  match request.correlationHeader with
  | none => some request.uuid
  | some incoming => if Metadata incoming then some incoming else none

def secureObservableBoundary (env : Environment) (settings : ApiSettings)
    (request : HttpRequest ν) : Program (HttpOp ν) HttpReply Failure (Response ν) :=
  match request.correlation with
  | none =>
    observed request "<rejected>" "unavailable" (400, .problem (problem 400
      "Invalid request metadata" "X-Correlation-ID has an invalid format."
      "invalid-request-metadata" "unavailable"))
  | some correlation =>
    (callEndpoint env settings request correlation).handle (handleError correlation) >>=
      observed request request.endpoint.route correlation

/-! ## The application -/

def application (env : Environment) (settings : ApiSettings) (durations : Durations ν) :
    System (HttpOp ν) HttpReply Failure (Response ν) (HttpState ν) (HttpRequest ν)
      ((Datetime × Datetime) × ℚ) where
  exec := httpExec env durations
  body := secureObservableBoundary env settings
  tick t s :=
    { s with service := { s.service with now := t.1.1, utc := t.1.2 }, monotonic := t.2 }

abbrev HttpConfig (ν : Type) :=
  Config (HttpOp ν) HttpReply Failure (Response ν) (HttpState ν) (HttpRequest ν)

abbrev HttpThread (ν : Type) :=
  Thread (HttpOp ν) HttpReply Failure (Response ν) (HttpState ν) (HttpRequest ν)

abbrev HttpEvent (ν : Type) := Event (HttpOp ν) HttpReply

/-- The application when it starts. -/
def started (settings : ApiSettings) (now utc : Datetime) (monotonic : ℚ) : HttpConfig ν where
  state :=
    { service := { now, utc }
      rate := .after settings.rateLimitRequests settings.rateLimitWindowSeconds []
      monotonic }
  threads := []

/-- The configurations of all runs of the application. -/
def Served (env : Environment) (settings : ApiSettings) (durations : Durations ν)
    (c : HttpConfig ν) : Prop :=
  ∃ now utc monotonic, (application env settings durations).Reaches
    (started settings now utc monotonic) c

end AgenticDelivery.Api
