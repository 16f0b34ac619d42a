import AgenticDelivery.Api.Completion
import AgenticDelivery.Api.HttpAlone

/-! # The web console

`request-console.tsx` and the identities of `project-metadata.ts`: what the form and the
buttons send to the API, and what the page shows of the answers, when one handler runs
after the other. The API is the application of `main.py`. -/
namespace AgenticDelivery.Web
open AgenticDelivery.Atomic AgenticDelivery.Data AgenticDelivery.Governance AgenticDelivery.Runtime
open AgenticDelivery.Api Program

/-! ## The identities and the profiles -/

def localPersonas : List String :=
  ["local-requester-token", "local-reviewer-token", "local-operator-token",
    "local-administrator-token"]

def dataProfiles : List DataCategory :=
  [.generalContent, .contactInformation, .healthInformation, .financialInformation]

def approvalPersonas : List String := ["local-reviewer-token", "local-administrator-token"]

def localOperatorToken : String := "local-operator-token"

/-! ## The browser -/

/-- What `crypto.randomUUID` makes. -/
structure Uuid where
  text : String
  text_length : text.length = 36
  text_chars : text.toList.all metadataChar = true

/-- A request of the page: what it asks for, with the token, the `Idempotency-Key` and the
`X-Correlation-ID` of its headers. -/
structure Fetch where
  endpoint : Endpoint
  token : String
  idempotencyKey : String
  correlationId : String

inductive WebOp
  | randomUUID
  | fetch (request : Fetch)

/-- The reply to `fetch` is the response with its JSON, or the message of the error. -/
@[reducible] def WebReply (ν : Type) : WebOp → Type
  | .randomUUID => Uuid
  | .fetch _ => Except String (Response ν)

/-- The code of the page; what it throws is the message of an `Error`. -/
abbrev Page (ν α : Type) := Program WebOp (WebReply ν) String α

/-- What a request meets at the API. -/
structure Arrival (ν : Type) where
  uuid : String
  uuid_metadata : Metadata uuid
  durationMs : ν
  clock : Nat → (Datetime × Datetime) × ℚ

variable {ν : Type}

def Fetch.received (fetch : Fetch) (arrival : Arrival ν) : HttpRequest ν where
  endpoint := fetch.endpoint
  credential := some fetch.token
  correlationHeader := some fetch.correlationId
  idempotencyHeader := some fetch.idempotencyKey
  uuid := arrival.uuid
  uuid_metadata := arrival.uuid_metadata
  durationMs := arrival.durationMs

/-- A page in front of the API. -/
structure Browser (ν : Type) where
  server : HttpState ν
  /-- how many requests the API has got -/
  requests : Nat
  /-- how many identifiers the page has made -/
  uuids : Nat := 0

/-- The surroundings of a page. -/
structure Setting (ν : Type) where
  env : Environment
  settings : ApiSettings
  durations : Durations ν
  uuids : Nat → Uuid
  arrivals : Nat → Arrival ν
  /-- what the browser says of a body that is no JSON -/
  syntaxError : String

/-- An answer that no handler of the API has made is a plain text. -/
def Setting.exec (here : Setting ν) : (op : WebOp) → Browser ν → WebReply ν op × Browser ν
  | .randomUUID, b => (here.uuids b.uuids, { b with uuids := b.uuids + 1 })
  | .fetch request, b =>
    let arrival := here.arrivals b.requests
    let r := (application here.env here.settings here.durations).alone b.requests
      (request.received arrival) b.server arrival.clock
    (r.1.mapError fun _ => here.syntaxError,
      { b with server := r.2, requests := b.requests + 1 })

/-! ## What the page reads of a payload -/

def workflowIdOf : Body ν → String
  | .workflow workflow => workflow.workflowId
  | _ => "undefined"

def correlationIdOf : Body ν → String
  | .workflow workflow => workflow.correlationId
  | .problem problem => problem.correlationId
  | _ => "undefined"

def statusOf : Body ν → Option WorkflowState
  | .workflow workflow => some workflow.status
  | _ => none

def detailOf : Body ν → Option String
  | .problem problem => some problem.detail
  | _ => none

/-! ## The page -/

/-- The state of the page; the tokens and the category come from lists of options. -/
structure Console (ν : Type) where
  token : String := "local-requester-token"
  request : String := ""
  dataCategory : DataCategory := .generalContent
  approvalToken : String := "local-reviewer-token"
  workflow : Option (Body ν) := none
  error : String := ""
  token_mem : token ∈ localPersonas := by decide
  dataCategory_mem : dataCategory ∈ dataProfiles := by decide
  approvalToken_mem : approvalToken ∈ approvalPersonas := by decide

/-- The buttons of the page. -/
inductive Click
  | submit
  | decide (decision : Decision)
  | processTask

/-- `response.ok` -/
def Successful (statusCode : Int) : Prop := 200 ≤ statusCode ∧ statusCode ≤ 299

instance (statusCode : Int) : Decidable (Successful statusCode) :=
  inferInstanceAs (Decidable (_ ∧ _))

/-- `fetch` and what the handlers do with its response. -/
def exchange (request : Fetch) (rejected : String) : Page ν (Body ν) := do
  let response ← perform (WebOp.fetch request) >>= orRaise
  if Successful response.statusCode then pure response.body
  else .raise ((detailOf response.body).getD rejected)

/-! The constants of the form are what the API accepts. -/

theorem form_requestedLocale : "en".length ≤ 35 := by decide

theorem form_jurisdiction_length : 2 ≤ "US".length ∧ "US".length ≤ 35 := by decide

theorem form_jurisdiction_pattern :
    ("US".toList.all fun c => c.isUpper || c == '-') = true := by decide

theorem form_overlayIds : 1 ≤ ["common-us-baseline"].length := by decide

namespace Console
variable (console : Console ν)

/-- The body of the form, as the API reads it when the text has the length that is asked for. -/
def form (h : 10 ≤ console.request.length ∧ console.request.length ≤ 10000) :
    CreateServiceRequest where
  request := console.request
  requestedLocale := "en"
  dataContext :=
    { declaredCategories := {console.dataCategory}
      purpose := .deliveryPlanning
      jurisdiction := "US"
      overlayIds := ["common-us-baseline"]
      jurisdiction_length := form_jurisdiction_length
      jurisdiction_pattern := form_jurisdiction_pattern
      overlayIds_length := form_overlayIds }
  request_length := h
  requestedLocale_length := form_requestedLocale

def payload : Payload CreateServiceRequest :=
  if h : 10 ≤ console.request.length ∧ console.request.length ≤ 10000 then .valid (console.form h)
  else .invalid

/-! The handlers, up to what they show: what they ask of the API. -/

def submit : Page ν (Body ν) := do
  let correlationId ← perform WebOp.randomUUID
  let idempotencyKey ← perform WebOp.randomUUID
  let payload ← exchange
    { endpoint := .createServiceRequest console.payload
      token := console.token
      idempotencyKey := idempotencyKey.text
      correlationId := correlationId.text }
    "The API rejected the request."
  exchange
    { endpoint := .planWorkflow (workflowIdOf payload)
      token := console.token
      idempotencyKey := "plan-" ++ workflowIdOf payload
      correlationId := correlationId.text }
    "The deterministic planner rejected the workflow."

def approvalRequest : Decision → ApprovalRequest
  | .approved => ⟨.approved, "Reviewed and approved in the local console.", by decide⟩
  | .rejected => ⟨.rejected, "Rejected in the local console for revision.", by decide⟩

def approvalKey (workflowId : String) (decision : Decision) : String :=
  "approval-" ++ workflowId ++ "-" ++ decision.value

def decide (current : Body ν) (decision : Decision) : Page ν (Body ν) :=
  exchange
    { endpoint := .decideWorkflowApproval (workflowIdOf current) (.valid (approvalRequest decision))
      token := console.approvalToken
      idempotencyKey := approvalKey (workflowIdOf current) decision
      correlationId := correlationIdOf current }
    "The approval decision was rejected."

def processTask (current : Body ν) : Page ν (Body ν) :=
  exchange
    { endpoint := .processNextLocalTask
      token := localOperatorToken
      idempotencyKey := "process-" ++ workflowIdOf current
      correlationId := correlationIdOf current }
    "The local worker rejected the task."

/-- The handler of a button; all but the first are there for one state of what is shown. -/
def handler : Click → Option (Page ν (Body ν))
  | .submit => some console.submit
  | .decide decision =>
    (console.workflow.filter fun current => statusOf current = some .awaitingApproval).map
      fun current => console.decide current decision
  | .processTask =>
    (console.workflow.filter fun current => statusOf current = some .approved).map processTask

/-- What a handler takes off the page at once. -/
def cleared : Click → Console ν
  | .submit => { console with workflow := none, error := "" }
  | .decide _ | .processTask => { console with error := "" }

/-- What a handler shows in the end. -/
def told : Except String (Body ν) → Console ν
  | .ok payload => { console with workflow := some payload }
  | .error message => { console with error := message }

/-- A handler that runs on its own. -/
def settle (handler : Page ν (Body ν)) : Page ν (Console ν) :=
  (handler >>= fun payload => pure (console.told (.ok payload))).handle
    fun message => pure (console.told (.error message))

/-- A click, when no handler is under way. -/
def on (click : Click) : Page ν (Console ν) :=
  match console.handler click with
  | some handler => (console.cleared click).settle handler
  | none => pure console

/-- The journey of the page: a request, its approval and its delivery. -/
def journey : Page ν (Console ν) := do
  let planned ← console.on .submit
  let approved ← planned.on (.decide .approved)
  approved.on .processTask

end Console

/-! ## What the API makes of the requests -/

/-- A text that is part of every kind of key. -/
def Plain (id : String) : Prop :=
  3 ≤ id.length ∧ id.length ≤ 100 ∧ id.toList.all metadataChar = true

instance (id : String) : Decidable (Plain id) := inferInstanceAs (Decidable (_ ∧ _ ∧ _))

theorem Plain.key {id before after : String} (h : Plain id)
    (hlow : 5 ≤ before.length + after.length) (hhigh : before.length + after.length ≤ 28)
    (hchars : (before.toList ++ after.toList).all metadataChar = true) :
    8 ≤ (before ++ id ++ after).length ∧ Metadata (before ++ id ++ after) := by
  obtain ⟨hshort, hlong, hid⟩ := h
  have hlength : (before ++ id ++ after).length = before.length + id.length + after.length := by
    rw [String.length_append, String.length_append]
  refine ⟨by omega, by omega, by omega, ?_⟩
  rw [List.all_append, Bool.and_eq_true] at hchars
  simp only [String.toList_append, List.all_append, hchars, hid, Bool.and_self]

theorem Plain.approvalKey {id : String} (h : Plain id) (decision : Decision) :
    8 ≤ (Console.approvalKey id decision).length ∧ Metadata (Console.approvalKey id decision) := by
  rw [Console.approvalKey, String.append_assoc]
  cases decision with
  | approved => exact h.key (by decide) (by decide) (by decide)
  | rejected => exact h.key (by decide) (by decide) (by decide)

theorem Uuid.key (uuid : Uuid) : 8 ≤ uuid.text.length ∧ Metadata uuid.text := by
  rw [Metadata, uuid.text_length]
  exact ⟨by decide, by decide, by decide, uuid.text_chars⟩

theorem verify_localOperatorToken : verify localOperatorToken = some localOperator := by decide

section Received
variable {fetch : Fetch} {principal : Principal}

/-- The boundary accepts proper headers. -/
theorem received_accepted (arrival : Arrival ν) (hv : verify fetch.token = some principal)
    (hc : Metadata fetch.correlationId)
    (hk : 8 ≤ fetch.idempotencyKey.length ∧ Metadata fetch.idempotencyKey) :
    (fetch.received arrival).credential.bind verify = some principal ∧
      (fetch.received arrival).correlation = some fetch.correlationId ∧
      (fetch.received arrival).key = some fetch.idempotencyKey := by
  refine ⟨hv, if_pos hc, ?_⟩
  have hgood : ¬(fetch.idempotencyKey.length < 8 ∨ ¬Metadata fetch.idempotencyKey) := by
    rw [not_or, not_not, Nat.not_lt]
    exact hk
  simp only [HttpRequest.key, Fetch.received, idempotencyKey, if_neg hgood]

end Received

/-! ## What the page gets -/

section Exchange
variable {here : Setting ν} {b b' : Browser ν} {n : Nat} {s : State} {subjects : List String}
  {call : Call} {w : Workflow} {request : Fetch} {console : Console ν}

/-- What the service's clock shows to the `n`-th request, which has asked the limiter before. -/
def Setting.serviceClock (here : Setting ν) (n i : Nat) : Datetime × Datetime :=
  ((here.arrivals n).clock (i + 2)).1

/-- The API serves `s` after `n` requests, and has room for mutations of these subjects. -/
structure At (b : Browser ν) (n : Nat) (s : State) (subjects : List String) : Prop where
  serves : Serves b.server.service s
  requests : b.requests = n
  rooms : b.server.rate.limiter.Rooms subjects

/-- A mutation that succeeds brings the page its workflow. -/
theorem run_exchange
    (hcall : (request.received (here.arrivals n)).serviceCall = some call)
    (h : At b n s (call.principal.subject :: subjects))
    (hpost : request.endpoint.method = "POST")
    (hok : (answer here.env n s call (here.serviceClock n)).1 = .ok w)
    (hlife : Lifecycle here.env w) (rejected : String) : ∃ b',
      At b' (n + 1) (answer here.env n s call (here.serviceClock n)).2 subjects ∧
      (exchange request rejected).run here.exec b = (.ok (.workflow w.response), b') := by
  obtain rfl := h.requests
  obtain ⟨hallowed, hrooms⟩ := h.rooms.allow ((here.arrivals b.requests).clock 0).2
  obtain ⟨s₂', hserves, hrate, halone⟩ := @alone_post _ here.env here.settings here.durations _ _
    b.requests _ _ _ hcall hpost h.serves hallowed
  refine ⟨{ b with server := s₂', requests := b.requests + 1 }, ⟨hserves, rfl, ?_⟩, ?_⟩
  · rw [hrate]
    exact hrooms
  have halone : (application here.env here.settings here.durations).alone b.requests
      (request.received (here.arrivals b.requests)) b.server (here.arrivals b.requests).clock =
        ((request.received (here.arrivals b.requests)).answer call.correlationId
          (answer here.env b.requests s call (here.serviceClock b.requests)).1, s₂') := halone
  rw [hok, HttpRequest.answer, Except.bind, fromDomain_of_life hlife] at halone
  have hreply : here.exec (.fetch request) b =
      (.ok ⟨request.endpoint.successCode, .workflow w.response, call.correlationId⟩,
        { b with server := s₂', requests := b.requests + 1 }) := by
    rw [Setting.exec]
    rw [halone]
    rfl
  have hcode : Successful request.endpoint.successCode := by
    unfold Endpoint.successCode
    split <;> decide
  refine (run_perform hreply rfl _).trans ?_
  exact congrArg (fun p : Page ν (Body ν) => p.run _ _) (if_pos hcode)

/-- The button of a state is there when the workflow shown is in it. -/
theorem filter_statusOf {status : WorkflowState} (hs : w.status = status) :
    (some (.workflow w.response : Body ν)).filter
      (fun current => statusOf current = some status) = some (.workflow w.response) :=
  Option.filter_some_pos (decide_eq_true (congrArg some hs))

theorem run_settle {handler : Page ν (Body ν)} {payload : Body ν}
    (h : handler.run here.exec b = (.ok payload, b')) :
    (console.settle handler).run here.exec b =
      (.ok { console with workflow := some payload }, b') :=
  run_handle_ok (run_bind_ok h _) _

/-- A form that is planned shows the workflow that awaits its approval. -/
theorem run_submit {payload : CreateServiceRequest} {requester : Principal} {w' : Workflow}
    {s' s'' : State} (h : At b n s (requester.subject :: requester.subject :: subjects))
    (hpayload : console.payload = .valid payload) (hv : verify console.token = some requester)
    (hplain : Plain w.workflowId)
    (hcreate : answer here.env n s (.create (payload.arguments requester
      (here.uuids (b.uuids + 1)).text (here.uuids b.uuids).text)) (here.serviceClock n) =
        (.ok w, s')) (hlife : Lifecycle here.env w)
    (hplan : answer here.env (n + 1) s' (.plan requester w.workflowId (here.uuids b.uuids).text)
      (here.serviceClock (n + 1)) = (.ok w', s'')) (hlife' : Lifecycle here.env w') :
    ∃ b', At b' (n + 2) s'' subjects ∧
      (console.on .submit).run here.exec b =
        (.ok { console with workflow := some (.workflow w'.response), error := "" }, b') := by
  -- the page has made its two identifiers
  let asked : Browser ν := { b with uuids := b.uuids + 1 + 1 }
  let form : Fetch :=
    ⟨.createServiceRequest console.payload, console.token, (here.uuids (b.uuids + 1)).text,
      (here.uuids b.uuids).text⟩
  let plan : Fetch :=
    ⟨.planWorkflow w.workflowId, console.token, "plan-" ++ w.workflowId, (here.uuids b.uuids).text⟩
  have hform : (form.received (here.arrivals n)).serviceCall = some (.create (payload.arguments
      requester (here.uuids (b.uuids + 1)).text (here.uuids b.uuids).text)) := by
    obtain ⟨hp, hc, hk⟩ := @received_accepted _ form _ (here.arrivals n) hv
      (here.uuids b.uuids).key.2 (here.uuids (b.uuids + 1)).key
    rw [HttpRequest.serviceCall, hp, hc, hk]
    simp only [Fetch.received, form, hpayload, Option.map_some]
  have hask : (plan.received (here.arrivals (n + 1))).serviceCall =
      some (.plan requester w.workflowId (here.uuids b.uuids).text) := by
    have hkey := @Plain.key _ "plan-" "" hplain (by decide) (by decide) (by decide)
    rw [String.append_empty] at hkey
    obtain ⟨hp, hc, hk⟩ := @received_accepted _ plan _ (here.arrivals (n + 1)) hv
      (here.uuids b.uuids).key.2 hkey
    rw [HttpRequest.serviceCall, hp, hc, hk]
    simp only [Fetch.received, plan, Option.map_some]
  have hasked : At asked n s (requester.subject :: requester.subject :: subjects) :=
    ⟨h.serves, h.requests, h.rooms⟩
  obtain ⟨b₁, h₁, hrun₁⟩ := run_exchange hform hasked rfl (congrArg Prod.fst hcreate) hlife
    "The API rejected the request."
  rw [hcreate] at h₁
  obtain ⟨b₂, h₂, hrun₂⟩ := run_exchange hask h₁ rfl (congrArg Prod.fst hplan) hlife'
    "The deterministic planner rejected the workflow."
  rw [hplan] at h₂
  exact ⟨b₂, h₂, run_settle ((run_bind_ok hrun₁ _).trans hrun₂)⟩

theorem run_decide {decision : Decision} {reviewer : Principal} {w' : Workflow}
    (h : At b n s (reviewer.subject :: subjects))
    (hshown : console.workflow = some (.workflow w.response)) (hs : w.status = .awaitingApproval)
    (hv : verify console.approvalToken = some reviewer) (hplain : Plain w.workflowId)
    (hcorrelation : Metadata w.correlationId) {s' : State}
    (hdecide : answer here.env n s (.decideApproval reviewer w.workflowId
      (Console.approvalRequest decision).decision (Console.approvalRequest decision).reason
      (Console.approvalKey w.workflowId decision) w.correlationId) (here.serviceClock n) =
        (.ok w', s'))
    (hlife : Lifecycle here.env w') : ∃ b', At b' (n + 1) s' subjects ∧
      (console.on (.decide decision)).run here.exec b =
        (.ok { console with workflow := some (.workflow w'.response), error := "" }, b') := by
  let click : Fetch :=
    ⟨.decideWorkflowApproval w.workflowId (.valid (Console.approvalRequest decision)),
      console.approvalToken, Console.approvalKey w.workflowId decision, w.correlationId⟩
  have hclick : (click.received (here.arrivals n)).serviceCall =
      some (.decideApproval reviewer w.workflowId (Console.approvalRequest decision).decision
        (Console.approvalRequest decision).reason (Console.approvalKey w.workflowId decision)
        w.correlationId) := by
    obtain ⟨hp, hc, hk⟩ := @received_accepted _ click _ (here.arrivals n) hv hcorrelation
      (hplain.approvalKey decision)
    rw [HttpRequest.serviceCall, hp, hc, hk]
    simp only [Fetch.received, click, Option.map_some]
  obtain ⟨b', h', hrun⟩ := run_exchange hclick h rfl (congrArg Prod.fst hdecide) hlife
    "The approval decision was rejected."
  rw [hdecide] at h'
  refine ⟨b', h', ?_⟩
  have hbutton : console.handler (.decide decision) =
      some (console.decide (.workflow w.response) decision) := by
    rw [Console.handler, hshown, filter_statusOf hs]
    rfl
  rw [Console.on, hbutton]
  exact run_settle hrun

theorem run_processTask {w' : Workflow} (h : At b n s (localOperator.subject :: subjects))
    (hshown : console.workflow = some (.workflow w.response)) (hs : w.status = .approved)
    (hplain : Plain w.workflowId) (hcorrelation : Metadata w.correlationId) {s' : State}
    (hprocess : answer here.env n s (.processNextTask localOperator w.correlationId)
      (here.serviceClock n) = (.ok w', s'))
    (hlife : Lifecycle here.env w') : ∃ b', At b' (n + 1) s' subjects ∧
      (console.on .processTask).run here.exec b =
        (.ok { console with workflow := some (.workflow w'.response), error := "" }, b') := by
  let click : Fetch :=
    ⟨.processNextLocalTask, localOperatorToken, "process-" ++ w.workflowId, w.correlationId⟩
  have hclick : (click.received (here.arrivals n)).serviceCall =
      some (.processNextTask localOperator w.correlationId) := by
    have hkey := @Plain.key _ "process-" "" hplain (by decide) (by decide) (by decide)
    rw [String.append_empty] at hkey
    obtain ⟨hp, hc, hk⟩ := @received_accepted _ click localOperator (here.arrivals n)
      verify_localOperatorToken hcorrelation hkey
    rw [HttpRequest.serviceCall, hp, hc, hk]
    simp only [Fetch.received, click, Option.map_some]
  obtain ⟨b', h', hrun⟩ := run_exchange hclick h rfl (congrArg Prod.fst hprocess) hlife
    "The local worker rejected the task."
  rw [hprocess] at h'
  refine ⟨b', h', ?_⟩
  have hbutton : console.handler .processTask =
      some (Console.processTask (.workflow w.response)) := by
    rw [Console.handler, hshown, filter_statusOf hs]
    rfl
  rw [Console.on, hbutton]
  exact run_settle hrun

end Exchange

/-! ## The journey -/

/-- The calls of the journey, from `s` after `n` requests. -/
def Setting.course (here : Setting ν) (n : Nat) (s : State) (payload : CreateServiceRequest)
    (requester reviewer : Principal) : Course where
  request := payload.arguments requester (here.uuids 1).text (here.uuids 0).text
  planner := requester
  reviewer := reviewer
  operator := localOperator
  reason := (Console.approvalRequest .approved).reason
  key := Console.approvalKey (Course.workflowId here.env s) .approved
  correlationIds _ := (here.uuids 0).text
  clocks
    | 0 => here.serviceClock n
    | 1 => here.serviceClock (n + 1)
    | 2 => here.serviceClock (n + 2)
    | _ => here.serviceClock (n + 3)

/-- The journey is a course that goes through, with nothing in its way. -/
structure Console.Proper (console : Console ν) (here : Setting ν) (u : Unicode) (n : Nat)
    (s : State) (limiter : InMemoryRateLimiter) (payload : CreateServiceRequest)
    (requester reviewer : Principal) : Prop where
  form : console.payload = .valid payload
  submitter : verify console.token = some requester
  decider : verify console.approvalToken = some reviewer
  course : (here.course n s payload requester reviewer).Proper here.env s u
  plain : Plain (Course.workflowId here.env s)
  rooms : limiter.Rooms
    [requester.subject, requester.subject, reviewer.subject, localOperator.subject]
  idle : s.taskQueue.pending = []

theorem payload_request {console : Console ν} {payload : CreateServiceRequest}
    (h : console.payload = .valid payload) : payload.request = console.request := by
  unfold Console.payload at h
  split at h
  · cases h
    rfl
  · cases h

/-- It does not depend on the audit events. -/
theorem Console.Proper.congr {console : Console ν} {here : Setting ν} {u : Unicode} {n : Nat}
    {s s' : State} {limiter : InMemoryRateLimiter} {payload : CreateServiceRequest}
    {requester reviewer : Principal} (h : ButAudit s s')
    (hok : console.Proper here u n s limiter payload requester reviewer) :
    console.Proper here u n s' limiter payload requester reviewer := by
  rw [ButAudit] at h
  rw [h]
  exact { hok with course := { hok.course with } }

section Journey
variable {here : Setting ν} {c : HttpConfig ν} {u : Unicode} {mode : EnforcementMode}
  {console : Console ν} {payload : CreateServiceRequest} {requester reviewer : Principal}

/-- **The journey of the page goes through.** After any run of the application, however many
requests have stopped half way, a form whose course goes through in the service ends, by the
three buttons, with its completed workflow on the page, as it is stored. -/
theorem journey_completes (hf : Function.Injective here.env.idFactory)
    (hp : DefaultPorts u mode here.env) (hc : Served here.env here.settings here.durations c)
    (hok : console.Proper here u c.threads.length c.state.service c.state.rate.limiter payload
      requester reviewer) :
    ∃ w b', console.journey.run here.exec { server := c.state, requests := c.threads.length } =
        (.ok { console with workflow := some (.workflow w.response), error := "" }, b') ∧
      b'.server.service.stored (Course.workflowId here.env c.state.service) = some w ∧
      w.status = .completed ∧ w.request = normalizeRequest console.request ∧
      w.ownerId = requester.subject := by
  obtain ⟨c', hc', hcarry⟩ := hc.carries
  have hstate : ButAudit c.state.service c'.state := hcarry.shares
  have hserves : Serves c.state.service c'.state := by
    rw [ButAudit] at hstate
    rw [Serves, hstate]
  have hid : Course.workflowId here.env c.state.service = Course.workflowId here.env c'.state := by
    rw [ButAudit] at hstate
    rw [hstate]
    rfl
  have h₀ : Reached here.env c.threads.length c'.state := ⟨c', hc', rfl, hcarry.length⟩
  have hok := hok.congr hstate
  rw [hid]
  generalize c.threads.length = n at *
  generalize c'.state = s at *
  obtain ⟨s', w₀, w₁, w₂, w₃, hgoes⟩ := Course.replies hf hp h₀ hok.course hok.idle
  have new₀ := hgoes.received
  obtain ⟨new₁, hs₁⟩ := hgoes.awaiting
  obtain ⟨new₂, hs₂⟩ := hgoes.decided
  obtain ⟨new₃, hs₃⟩ := hgoes.completed
  have hplain : ∀ {s' w}, (here.course n s payload requester reviewer).New here.env s s' w →
      Plain w.workflowId ∧ Metadata w.correlationId := by
    intro s' w hnew
    rw [hnew.workflowId, hnew.correlationId]
    exact ⟨hok.plain, (here.uuids 0).key.2⟩
  -- the page, one handler after the other
  let page (w : Workflow) : Console ν :=
    { console with workflow := some (.workflow w.response), error := "" }
  have hb₀ : At ({ server := c.state, requests := n } : Browser ν) n s [requester.subject,
      requester.subject, reviewer.subject, localOperator.subject] := ⟨hserves, rfl, hok.rooms⟩
  obtain ⟨b₁, hb₁, hrun₁⟩ := @run_submit _ here _ n s _ w₀ console payload requester w₁ _ _ hb₀
    hok.form hok.submitter (hplain new₀).1 hgoes.created new₀.life
    (by rw [new₀.workflowId]; exact hgoes.planned) new₁.life
  obtain ⟨b₂, hb₂, hrun₂⟩ := @run_decide _ here b₁ (n + 2) _ _ w₁ (page w₁) .approved reviewer w₂
    hb₁ rfl hs₁ hok.decider (hplain new₁).1 (hplain new₁).2 _
    (by rw [new₁.workflowId, new₁.correlationId]; exact hgoes.approved) new₂.life
  obtain ⟨b₃, hb₃, hrun₃⟩ := @run_processTask _ here b₂ (n + 3) _ _ w₂ (page w₂) w₃ hb₂ rfl hs₂
    (hplain new₂).1 (hplain new₂).2 _ (by rw [new₂.correlationId]; exact hgoes.executed) new₃.life
  refine ⟨w₃, b₃, ?_, ?_, hs₃, ?_, new₃.ownerId⟩
  · exact (run_bind_ok hrun₁ _).trans ((run_bind_ok hrun₂ _).trans hrun₃)
  · rw [hb₃.serves.stored]
    exact new₃.stored
  · rw [new₃.request, ← payload_request hok.form]
    rfl

end Journey

/-! ### The request of the examples, from the page -/

/-- The local profile with longer identifiers. -/
def pageEnv : Environment := { localEnv with idFactory := fun n => "workflow-" ++ sampleId n }

theorem pageEnv_injective : Function.Injective pageEnv.idFactory :=
  fun _ _ h => sampleId_injective (String.append_right_inj _ |>.mp h)

def sampleUuid : Uuid := ⟨"00000000-0000-4000-8000-000000000000", by decide, by decide⟩

/-- All at one time. -/
def sampleSetting : Setting Int where
  env := pageEnv
  settings := localSettings
  durations := InMemoryOperationalTelemetry.wholeDurations
  uuids _ := sampleUuid
  arrivals _ := ⟨"r-1", by decide, 0, fun _ => ((0, 0), 0)⟩
  syntaxError := "unexpected token"

def sampleConsole : Console Int := { request := "Prepare a delivery plan" }

theorem sampleConsole_length :
    10 ≤ sampleConsole.request.length ∧ sampleConsole.request.length ≤ 10000 := by decide

def sampleForm : CreateServiceRequest := sampleConsole.form sampleConsole_length

theorem proper_sampleConsole : sampleConsole.Proper sampleSetting asciiUnicode 0
    { now := 0, utc := 0 } { limit := 100, windowSeconds := 60 } sampleForm localRequester
    localReviewer where
  form := dif_pos sampleConsole_length
  submitter := by decide
  decider := by decide
  course :=
    { admitted := ⟨by decide, by decide, by decide +kernel⟩
      unbound := by decide
      distinct := fun _ _ hw => by cases hw
      safe := by decide
      planner := .inl rfl
      reviewer := by decide
      other := by decide
      operator := by unfold Principal.MayProcess; decide
      decided := by decide
      delivered := fun _ => (by decide : (0 : Int) ≤ minutes 15) }
  plain := by decide
  rooms := fun subject _ => ⟨List.count_le_length.trans (by decide), fun _ hw => by cases hw⟩
  idle := rfl

theorem journey_completes_sampleConsole : ∃ (w : Workflow) (b' : Browser Int),
    sampleConsole.journey.run sampleSetting.exec
        { server := (started localSettings 0 0 0).state, requests := 0 } =
      (.ok { sampleConsole with workflow := some (.workflow w.response), error := "" }, b') ∧
    w.status = .completed := by
  obtain ⟨w, b', hrun, -, hs, -⟩ := journey_completes pageEnv_injective
    (⟨rfl, fun _ _ => ⟨_, rfl⟩⟩ : DefaultPorts asciiUnicode .enforce pageEnv)
    ⟨0, 0, 0, .refl⟩ proper_sampleConsole
  exact ⟨w, b', hrun, hs⟩

end AgenticDelivery.Web
