import AgenticDelivery.Atomic.Bounded
import AgenticDelivery.Web.Console

/-! # A page among others

What the page shows while other clients use the API, and while handlers of its own are
under way at once: workflows as they were stored, and no decision that is not on record. -/
namespace AgenticDelivery.Web
open AgenticDelivery.Atomic AgenticDelivery.Data AgenticDelivery.Governance AgenticDelivery.Runtime
open AgenticDelivery.Api Program

variable {ν : Type} {env : Environment} {settings : ApiSettings} {durations : Durations ν}
  {request : HttpRequest ν} {correlation : String} {log : List (HttpEvent ν)}

/-! ## Successes -/

/-- The endpoints that change something. -/
def Mutates : Endpoint → Prop
  | .createServiceRequest _ | .planWorkflow _ | .decideWorkflowApproval _ _
  | .processNextLocalTask => True
  | _ => False

/-- A mutation that returns does so with a workflow. -/
def mutationRules (ν : Type) : Rules (HttpOp ν) HttpReply HttpError (Int × Body ν) where
  may _ _ := True
  fits _ _ := True
  ends
    | _, .ok response => ∃ workflow, response.2 = .workflow workflow
    | _, .error _ => True

/-- A mutation that succeeds is answered with a workflow. -/
def successRules (request : HttpRequest ν) : Rules (HttpOp ν) HttpReply Failure (Response ν) where
  may _ _ := True
  fits _ _ := True
  ends
    | _, .ok response => Mutates request.endpoint → Successful response.statusCode →
        ∃ workflow, response.body = .workflow workflow
    | _, .error _ => True

theorem keeps_dependencies {k : Principal × String × String → Http ν (Int × Body ν)}
    (h : ∀ x log, (k x).Keeps (mutationRules ν) log) :
    (mutationDependencies request correlation >>= k).Keeps (mutationRules ν) log := by
  unfold mutationDependencies
  cases authenticatedPrincipal request.credential with
  | error => exact trivial
  | ok principal =>
    cases correlationId request.correlationHeader correlation with
    | error => exact trivial
    | ok correlation' =>
      cases idempotencyKey request.idempotencyHeader with
      | error => exact trivial
      | ok key =>
        refine ⟨trivial, fun now _ => ⟨trivial, fun allowed _ => ?_⟩⟩
        cases allowed with
        | true => exact h _ _
        | false => exact trivial

theorem keeps_response (statusCode : Int) (call : Call) (log : List (HttpEvent ν)) :
    (workflowResponse env statusCode call).Keeps (mutationRules ν) log := by
  refine .inner (fun _ _ _ => trivial) (fun more w _ => ?_) fun _ _ _ => trivial
  cases WorkflowResponse.fromDomain w with
  | ok response => exact ⟨response, rfl⟩
  | error => exact trivial

theorem keeps_payload {α : Type} {payload : Payload α}
    {endpoint : α → Principal × String × String → Http ν (Int × Body ν)}
    (h : ∀ value x log, (endpoint value x).Keeps (mutationRules ν) log) :
    (withPayload payload (mutationDependencies request correlation) endpoint).Keeps
      (mutationRules ν) log := by
  cases payload with
  | unreadable => exact trivial
  | invalid => exact keeps_dependencies fun _ _ => trivial
  | valid value => exact keeps_dependencies (h value)

theorem keeps_mutations (hm : Mutates request.endpoint) :
    (callEndpoint env settings request correlation).Keeps (mutationRules ν) [] := by
  unfold callEndpoint
  cases he : request.endpoint with
  | createServiceRequest => exact keeps_payload fun _ _ => keeps_response _ _
  | planWorkflow => exact keeps_dependencies fun _ => keeps_response _ _
  | decideWorkflowApproval => exact keeps_payload fun _ _ => keeps_response _ _
  | processNextLocalTask => exact keeps_dependencies fun _ => keeps_response _ _
  | _ =>
    rw [he] at hm
    exact hm.elim

theorem handled_not_successful {error : HttpError} {problem : ProblemResponse}
    (h : error.handled correlation = .ok problem) : ¬Successful problem.status := by
  cases error with
  | service failure =>
    cases failure with
    | application kind detail =>
      cases h
      cases kind <;> exact of_decide_eq_false rfl
    | valueError | keyError | indexError | runtime => cases h
  | authenticationRequired | invalidRequestMetadata | requestRateExceeded | requestValidation =>
    cases h
    exact of_decide_eq_false rfl

/-- **Every mutation that succeeds is answered with a workflow.** -/
theorem keeps_success (env : Environment) (settings : ApiSettings) (request : HttpRequest ν)
    (hm : Mutates request.endpoint) : (secureObservableBoundary env settings request).Keeps
      (successRules request) [] := by
  unfold secureObservableBoundary
  cases request.correlation with
  | none => exact ⟨trivial, fun _ _ _ h => absurd h (of_decide_eq_false rfl)⟩
  | some correlation =>
    refine (keeps_mutations hm).handle (fun _ _ _ => trivial) (fun _ _ _ => trivial)
      (fun log response h => ⟨trivial, fun _ _ _ _ => h⟩) fun log error _ => ?_
    unfold handleError
    cases hhandled : error.handled correlation with
    | ok problem =>
      exact ⟨trivial, fun _ _ _ h => absurd h (handled_not_successful hhandled)⟩
    | error failure => exact trivial

/-! ## What a mutation answers -/

/-- Rules that ask for nothing are kept. -/
theorem keeps_anything {Op : Type} {Reply : Op → Type} {ε α : Type} {rules : Rules Op Reply ε α}
    (fits : ∀ log op, rules.fits log op) (ends : ∀ log o, rules.ends log o)
    (p : Program Op Reply ε α) (log : List (Event Op Reply)) : p.Keeps rules log := by
  induction p generalizing log with
  | done value => exact ends _ _
  | raise error => exact ends _ _
  | call op next ih => exact ⟨fits _ _, fun r _ => ih r _⟩

section Answers
variable {here : Setting ν} {c c' c'' : HttpConfig ν}

theorem success_workflow (hc : Served env settings durations c) {tid : Nat} {t : HttpThread ν}
    (ht : c.threads[tid]? = some t) {response : Response ν} (hm : Mutates t.call.endpoint)
    (ho : t.rest.outcome = some (.ok response)) (hs : Successful response.statusCode) :
    ∃ workflow, response.body = .workflow workflow := by
  obtain ⟨now, utc, monotonic, h⟩ := hc
  have body : ∀ request : HttpRequest ν, (secureObservableBoundary env settings request).Keeps
      (successRules request) [] := by
    intro request
    by_cases hm : Mutates request.endpoint
    · exact keeps_success env settings request hm
    · refine keeps_anything (fun _ _ => trivial) (fun log o => ?_) _ _
      cases o with
      | ok response => exact fun h => absurd h hm
      | error failure => exact trivial
  have hk := (h.judged rfl body (fun _ _ _ _ _ _ _ _ => trivial) ht).2
  exact System.ends_of_keeps hk ho hm hs

/-! ## Handlers among others -/

/-- The page has sent a request and got its reply, and others were served meanwhile. Where the
network fails there is no answer but an error, whether the request has arrived or not. -/
structure Answered (here : Setting ν) (c : HttpConfig ν) (request : Fetch)
    (reply : Except String (Response ν)) (c' : HttpConfig ν) : Prop where
  reaches : (application here.env here.settings here.durations).Reaches c c'
  ended : (∃ tid t arrival o, c.threads.length ≤ tid ∧ c'.threads[tid]? = some t ∧
    t.call = request.received arrival ∧ t.rest.outcome = some o ∧
    reply = o.mapError fun _ => here.syntaxError) ∨ ∃ message, reply = .error message

/-- A handler has run, from `c` to `c'`, and come to its end. -/
inductive Runs (here : Setting ν) {α : Type} :
    Page ν α → HttpConfig ν → Except String α → HttpConfig ν → Prop
  | done {value c} : Runs here (.done value) c (.ok value) c
  | raise {error c} : Runs here (.raise error) c (.error error) c
  | randomUUID {next c o c'} (uuid : Uuid) (rest : Runs here (next uuid) c o c') :
      Runs here (.call .randomUUID next) c o c'
  | fetch {request next reply c c₁ o c'} (answered : Answered here c request reply c₁)
      (rest : Runs here (next reply) c₁ o c') : Runs here (.call (.fetch request) next) c o c'

section Runs
variable {α β : Type} {p : Page ν α} {o : Except String α}

theorem Runs.of_randomUUID {f : Uuid → Page ν α}
    (h : Runs here (perform WebOp.randomUUID >>= f) c o c') :
    ∃ uuid, Runs here (f uuid) c o c' := by
  have h : Runs here (.call .randomUUID f) c o c' := h
  cases h with
  | randomUUID uuid rest => exact ⟨uuid, rest⟩

theorem Runs.reaches (h : Runs here p c o c') :
    (application here.env here.settings here.durations).Reaches c c' := by
  induction h with
  | done | raise => exact .refl
  | randomUUID _ _ ih => exact ih
  | fetch answered _ ih => exact answered.reaches.trans ih

theorem Runs.of_bind {f : α → Page ν β} {o : Except String β} (h : Runs here (p >>= f) c o c') :
    (∃ error, Runs here p c (.error error) c' ∧ o = .error error) ∨
      ∃ value c₁, Runs here p c (.ok value) c₁ ∧ Runs here (f value) c₁ o c' := by
  induction p generalizing c with
  | done value => exact .inr ⟨value, c, .done, h⟩
  | raise error =>
    have h : Runs here (.raise error) c o c' := h
    cases h
    exact .inl ⟨error, .raise, rfl⟩
  | call op next ih =>
    have h : Runs here (.call op fun reply => next reply >>= f) c o c' := h
    cases op with
    | randomUUID =>
      cases h with
      | randomUUID uuid rest =>
        rcases ih uuid rest with ⟨error, hp, he⟩ | ⟨value, c₁, hp, hf⟩
        · exact .inl ⟨error, .randomUUID uuid hp, he⟩
        · exact .inr ⟨value, c₁, .randomUUID uuid hp, hf⟩
    | fetch request =>
      cases h with
      | fetch answered rest =>
        rcases ih _ rest with ⟨error, hp, he⟩ | ⟨value, c₁, hp, hf⟩
        · exact .inl ⟨error, .fetch answered hp, he⟩
        · exact .inr ⟨value, c₁, .fetch answered hp, hf⟩

/-- A handler that nobody interrupts is one of its runs. -/
theorem runs_run (p : Page ν α) {b b' : Browser ν} (hrun : p.run here.exec b = (o, b'))
    (hs : c.state = b.server) (hn : c.threads.length = b.requests) :
    ∃ c', Runs here p c o c' ∧ c'.state = b'.server ∧ c'.threads.length = b'.requests := by
  induction p generalizing b c with
  | done value =>
    cases hrun
    exact ⟨c, .done, hs, hn⟩
  | raise error =>
    cases hrun
    exact ⟨c, .raise, hs, hn⟩
  | call op next ih =>
    cases op with
    | randomUUID =>
      obtain ⟨c', h, hend⟩ := ih _ hrun hs hn
      exact ⟨c', .randomUUID _ h, hend⟩
    | fetch request =>
      obtain ⟨t, hreach, hcall, hout⟩ := (application here.env here.settings
        here.durations).reaches_alone c (request.received (here.arrivals b.requests))
          (here.arrivals b.requests).clock
      rw [hs, hn] at hreach hout
      obtain ⟨c', h, hend⟩ := ih _ hrun (c := ⟨_, c.threads ++ [t]⟩) rfl
        (by rw [List.length_append, hn]; rfl)
      refine ⟨c', .fetch ⟨hreach, .inl ⟨b.requests, t, _, _, hn.le, ?_, hcall, hout, rfl⟩⟩ h, hend⟩
      rw [← hn]
      exact List.getElem?_concat_length

end Runs

/-! ## What the page gets -/

/-- The page shows a version of a workflow that was stored. -/
def Shown (env : Environment) (s : State) (payload : Body ν) : Prop :=
  ∃ w, payload = .workflow w.response ∧ Known env w s

/-- A mutation that succeeds has made its call, which has returned the workflow. -/
theorem exchange_ok (hf : Function.Injective here.env.idFactory)
    (hc : Served here.env here.settings here.durations c) {request : Fetch}
    {rejected : String} {payload : Body ν}
    (h : Runs here (exchange request rejected) c (.ok payload) c')
    (hm : Mutates request.endpoint) :
    ∃ (d : PoolConfig) (tid : Nat) (u : Caller) (w : Workflow) (arrival : Arrival ν),
      Reachable here.env d ∧ ButAudit c'.state.service d.state ∧ d.threads[tid]? = some u ∧
      (request.received arrival).serviceCall = some u.call ∧ u.rest.outcome = some (.ok w) ∧
      payload = .workflow w.response := by
  have h : Runs here (.call (.fetch request) fun reply => (orRaise reply : Page ν (Response ν)) >>=
      fun response => if Successful response.statusCode then pure response.body
        else .raise ((detailOf response.body).getD rejected)) c (.ok payload) c' := h
  cases h with
  | @fetch _ _ reply _ _ _ _ answered rest =>
    cases reply with
    | error message => cases rest
    | ok response =>
      have rest : Runs here (if Successful response.statusCode then .done response.body
        else .raise ((detailOf response.body).getD rejected)) _ (.ok payload) c' := rest
      by_cases hs : Successful response.statusCode
      · rw [if_pos hs] at rest
        cases rest
        rcases answered.ended with ⟨tid, t, arrival, o, -, ht, hcall, ho, hreply⟩ | ⟨message, he⟩
        · cases o with
          | error failure => cases hreply
          | ok response' =>
            cases hreply
            have hc' := hc.reaches answered.reaches
            obtain ⟨body, hbody⟩ := success_workflow hc' ht (by rw [hcall]; exact hm) ho hs
            obtain ⟨d, hd, hcarry⟩ := hc'.carries
            obtain ⟨u, w, hu, hserve, houtcome, rfl⟩ :=
              answered_workflow hf hd hcarry ht (returned_of_outcome ho) hbody
            exact ⟨d, tid, u, w, arrival, hd, hcarry.shares, hu, hcall ▸ hserve, houtcome, hbody⟩
        · cases he
      · rw [if_neg hs] at rest
        cases rest

theorem exchange_shown (hf : Function.Injective here.env.idFactory)
    (hc : Served here.env here.settings here.durations c) {request : Fetch}
    {rejected : String} {payload : Body ν}
    (h : Runs here (exchange request rejected) c (.ok payload) c')
    (hm : Mutates request.endpoint) :
    Shown here.env c'.state.service payload := by
  obtain ⟨d, tid, u, w, -, hd, hs, hu, -, ho, rfl⟩ := exchange_ok hf hc h hm
  exact ⟨w, rfl, (hd.returned hf hu ho).1.congr hs⟩

/-- A handler that has succeeded has got a stored workflow. -/
theorem handler_shown (hf : Function.Injective here.env.idFactory)
    (hc : Served here.env here.settings here.durations c) {console : Console ν} {click : Click}
    {handler : Page ν (Body ν)} (hh : console.handler click = some handler) {payload : Body ν}
    (h : Runs here handler c (.ok payload) c') : Shown here.env c'.state.service payload := by
  cases click with
  | submit =>
    cases hh
    -- the form, and the plan behind it
    obtain ⟨correlationId, h⟩ := Runs.of_randomUUID h
    obtain ⟨idempotencyKey, h⟩ := Runs.of_randomUUID h
    rcases Runs.of_bind h with ⟨error, -, he⟩ | ⟨form, c₁, h₁, h₂⟩
    · cases he
    · exact exchange_shown hf (hc.reaches h₁.reaches) h₂ trivial
  | decide decision =>
    obtain ⟨current, -, rfl⟩ := Option.map_eq_some_iff.mp hh
    exact exchange_shown hf hc h trivial
  | processTask =>
    obtain ⟨current, -, rfl⟩ := Option.map_eq_some_iff.mp hh
    exact exchange_shown hf hc h trivial

/-! ## Visits -/

/-- A handler under way: the page at its click, what is left of it, and what the application
was when it began to wait. -/
structure Handler (ν : Type) where
  console : Console ν
  click : Click
  rest : Page ν (Body ν)
  since : HttpConfig ν

/-- A page that is open, with its handlers under way, in front of the application. -/
structure Tab (ν : Type) where
  console : Console ν
  handlers : List (Handler ν)
  server : HttpConfig ν

/-- What happens at a page: others use the application, the user fills in the form and clicks,
and the handlers go on, one or the other. -/
inductive Happens (here : Setting ν) : Tab ν → Tab ν → Prop
  | others {tab : Tab ν} {c' : HttpConfig ν}
      (reaches : (application here.env here.settings here.durations).Reaches tab.server c') :
      Happens here tab { tab with server := c' }
  | filled {tab console'} (workflow : console'.workflow = tab.console.workflow)
      (error : console'.error = tab.console.error) :
      Happens here tab { tab with console := console' }
  | clicked {tab click rest} (there : tab.console.handler click = some rest) :
      Happens here tab
        { tab with
          console := tab.console.cleared click
          handlers := tab.handlers ++ [⟨tab.console, click, rest, tab.server⟩] }
  | randomUUID {tab i handler next} (uuid : Uuid) (place : tab.handlers[i]? = some handler)
      (rest : handler.rest = .call .randomUUID next) :
      Happens here tab
        { tab with handlers := tab.handlers.set i { handler with rest := next uuid } }
  | fetch {tab i handler request next reply} (place : tab.handlers[i]? = some handler)
      (rest : handler.rest = .call (.fetch request) next)
      (answered : Answered here handler.since request reply tab.server) :
      Happens here tab
        { tab with
          handlers := tab.handlers.set i
            { handler with rest := next reply, since := tab.server } }
  | ended {tab i handler o} (place : tab.handlers[i]? = some handler)
      (outcome : handler.rest.outcome = some o) :
      Happens here tab
        { tab with console := tab.console.told o, handlers := tab.handlers.eraseIdx i }

/-- A page from when it is opened on. -/
inductive Visit (here : Setting ν) : Tab ν → Prop
  | opened {c : HttpConfig ν} (served : Served here.env here.settings here.durations c) :
      Visit here ⟨{}, [], c⟩
  | step {tab tab' : Tab ν} (visit : Visit here tab) (happens : Happens here tab tab') :
      Visit here tab'

/-- The handler is on its way from its click: what it comes to is what the click comes to. -/
def Handler.Underway (here : Setting ν) (c : HttpConfig ν) (handler : Handler ν) : Prop :=
  ∃ c₀ asked, Served here.env here.settings here.durations c₀ ∧
    handler.console.handler handler.click = some asked ∧
    (application here.env here.settings here.durations).Reaches handler.since c ∧
    ∀ o c', Runs here handler.rest handler.since o c' → Runs here asked c₀ o c'

theorem Handler.Underway.mono {handler : Handler ν} (h : handler.Underway here c)
    (hr : (application here.env here.settings here.durations).Reaches c c') :
    handler.Underway here c' := by
  obtain ⟨c₀, asked, hc₀, hasked, hsince, hruns⟩ := h
  exact ⟨c₀, asked, hc₀, hasked, hsince.trans hr, hruns⟩

/-- A handler that has ended has run. -/
theorem Handler.Underway.ended {handler : Handler ν} (h : handler.Underway here c)
    {o : Except String (Body ν)} (ho : handler.rest.outcome = some o) :
    ∃ c₀ asked, Served here.env here.settings here.durations c₀ ∧
      handler.console.handler handler.click = some asked ∧
      (application here.env here.settings here.durations).Reaches handler.since c ∧
      Runs here asked c₀ o handler.since := by
  obtain ⟨c₀, asked, hc₀, hasked, hsince, hruns⟩ := h
  refine ⟨c₀, asked, hc₀, hasked, hsince, hruns o _ ?_⟩
  cases hr : handler.rest with
  | done payload =>
    rw [hr] at ho
    cases ho
    exact .done
  | raise message =>
    rw [hr] at ho
    cases ho
    exact .raise
  | call op next =>
    rw [hr] at ho
    cases ho

/-- **The handlers of a visit are on their way from their clicks.** -/
theorem Visit.underway {tab : Tab ν} (h : Visit here tab) :
    Served here.env here.settings here.durations tab.server ∧
      ∀ handler ∈ tab.handlers, handler.Underway here tab.server := by
  induction h with
  | opened served => exact ⟨served, fun _ hm => by cases hm⟩
  | step visit happens ih =>
    obtain ⟨hserved, hunderway⟩ := ih
    cases happens with
    | others reaches =>
      exact ⟨hserved.reaches reaches, fun handler hm => (hunderway handler hm).mono reaches⟩
    | filled => exact ⟨hserved, hunderway⟩
    | @clicked click rest there =>
      refine ⟨hserved, fun handler hm => ?_⟩
      rcases List.mem_append.mp hm with hm | hm
      · exact hunderway handler hm
      · cases List.mem_singleton.mp hm
        exact ⟨_, rest, hserved, there, .refl, fun _ _ h => h⟩
    | @randomUUID i handler next uuid place rest =>
      refine ⟨hserved, fun handler' hm => ?_⟩
      rcases List.mem_or_eq_of_mem_set hm with hm | rfl
      · exact hunderway handler' hm
      · obtain ⟨c₀, asked, hc₀, hasked, hsince, hruns⟩ :=
          hunderway handler (List.mem_of_getElem? place)
        refine ⟨c₀, asked, hc₀, hasked, hsince, fun o c' h => hruns o c' ?_⟩
        rw [rest]
        exact .randomUUID uuid h
    | @fetch i handler request next reply place rest answered =>
      refine ⟨hserved, fun handler' hm => ?_⟩
      rcases List.mem_or_eq_of_mem_set hm with hm | rfl
      · exact hunderway handler' hm
      · obtain ⟨c₀, asked, hc₀, hasked, -, hruns⟩ := hunderway handler (List.mem_of_getElem? place)
        refine ⟨c₀, asked, hc₀, hasked, .refl, fun o c' h => hruns o c' ?_⟩
        rw [rest]
        exact .fetch answered h
    | ended place outcome =>
      exact ⟨hserved, fun handler hm => hunderway handler (List.mem_of_mem_eraseIdx hm)⟩

/-- **The page shows what is stored.** Whatever the user does, whichever of the handlers goes
on first, and whoever else uses the application meanwhile, what the page shows is a workflow,
as it was stored; the stored one is the same or a later state of it. -/
theorem shown_stored (hf : Function.Injective here.env.idFactory) {tab : Tab ν}
    (h : Visit here tab) : ∀ payload, tab.console.workflow = some payload →
      ∃ w w' : Workflow, payload = .workflow w.response ∧ Lifecycle here.env w ∧
        tab.server.state.service.stored w.workflowId = some w' ∧ Later here.env w w' := by
  have shown : ∀ payload, tab.console.workflow = some payload →
      Shown here.env tab.server.state.service payload := by
    induction h with
    | opened =>
      intro payload hp
      cases hp
    | step visit happens ih =>
      obtain ⟨hserved, hunderway⟩ := visit.underway
      intro payload hp
      cases happens with
      | others reaches =>
        obtain ⟨w, he, hk⟩ := ih payload hp
        exact ⟨w, he, hk.reaches hf hserved reaches⟩
      | filled workflow => exact ih payload (workflow.symm.trans hp)
      | @clicked click =>
        cases click with
        | submit => cases hp
        | decide | processTask => exact ih payload hp
      | randomUUID | fetch => exact ih payload hp
      | @ended i handler o place outcome =>
        cases o with
        | error message => exact ih payload hp
        | ok value =>
          cases hp
          obtain ⟨c₀, asked, hc₀, hasked, hsince, hruns⟩ :=
            (hunderway handler (List.mem_of_getElem? place)).ended outcome
          obtain ⟨w, he, hk⟩ := handler_shown hf hc₀ hasked hruns
          exact ⟨w, he, hk.reaches hf (hc₀.reaches hruns.reaches) hsince⟩
  intro payload hp
  obtain ⟨w, he, hlife, w', hw', hl⟩ := shown payload hp
  exact ⟨w, w', he, hlife, hw', hl⟩

/-! ## Decisions -/

theorem key_received {request : Fetch} {arrival : Arrival ν} {key : String}
    (h : (request.received arrival).key = some key) : key = request.idempotencyKey := by
  unfold HttpRequest.key Fetch.received idempotencyKey at h
  dsimp only at h
  by_cases hbad : request.idempotencyKey.length < 8 ∨ ¬Metadata request.idempotencyKey
  · rw [if_pos hbad] at h
    cases h
  · rw [if_neg hbad] at h
    cases h
    rfl

/-- **A decision that the page shows is on record.** When the handler of one of the two buttons
has got its answer, it shows the workflow that it was clicked for, with the decision of the
button under the key of the page; and it stays so in every run that goes on from there: only
when it is consumed is still to come. -/
theorem decision_recorded (hf : Function.Injective here.env.idFactory) {tab : Tab ν}
    (hv : Visit here tab) {handler : Handler ν} (hm : handler ∈ tab.handlers)
    {decision : Decision} (hclick : handler.click = .decide decision) {payload : Body ν}
    (ho : handler.rest.outcome = some (.ok payload)) :
    ∃ (w : Workflow) (approval : ApprovalDecision),
      (tab.console.told (.ok payload)).workflow = some (.workflow w.response) ∧
      handler.console.workflow.map workflowIdOf = some w.workflowId ∧
      w.approvalDecision = some approval ∧ approval.decision = decision ∧
      approval.idempotencyKey = Console.approvalKey w.workflowId decision ∧
      ∀ c', (application here.env here.settings here.durations).Reaches tab.server c' →
        ∃ w' consumed, c'.state.service.stored w.workflowId = some w' ∧
          w'.approvalDecision = some { approval with consumedAt := consumed } ∧
          WriteOnce approval.consumedAt consumed := by
  obtain ⟨c₀, asked, hc₀, hasked, hsince, hruns⟩ := (hv.underway.2 handler hm).ended ho
  rw [hclick] at hasked
  obtain ⟨current, hcurrent, rfl⟩ := Option.map_eq_some_iff.mp hasked
  obtain ⟨hcurrent, -⟩ := Option.filter_eq_some_iff.mp hcurrent
  obtain ⟨d, tid, u, w, arrival, hd, hs, hu, hserve, hout, rfl⟩ :=
    exchange_ok hf hc₀ hruns trivial
  -- the call was that of the button
  obtain ⟨principal, correlation, -, -, ⟨_, he, -⟩ | ⟨key, hk, ⟨_, he, -⟩ | ⟨_, he, -⟩ |
    ⟨id, payload, he, hcall⟩ | ⟨he, -⟩⟩⟩ := serviceCall_cases hserve <;> cases he
  have hpost := (hd.safeAt hf).post hu hout
  rw [hcall] at hpost
  obtain ⟨w₀, approval, -, -, hid, hknown, ha, hdecision, hkey, -⟩ := hpost
  have hshown : Known here.env w handler.since.state.service := hknown.congr hs
  refine ⟨w, approval, rfl, ?_, ha, ?_, ?_, fun c' hreach => ?_⟩
  · rw [hcurrent, hid]
    rfl
  · rw [hdecision]
    cases decision <;> rfl
  · rw [hkey, key_received hk, hid]
  · obtain ⟨hlife, w', hw', hl⟩ :=
      hshown.reaches hf (hc₀.reaches hruns.reaches) (hsince.trans hreach)
    obtain ⟨consumed, honce, happroval⟩ := (hl.grows hlife).approvalDecision approval ha
    exact ⟨w', consumed, hw', happroval, honce⟩

/-! ## Handlers one by one -/

/-- A handler that is alone on the page goes on to its end. -/
theorem Visit.alone {console : Console ν} {handler : Handler ν} {o : Except String (Body ν)}
    (hv : Visit here ⟨console, [handler], handler.since⟩)
    (h : Runs here handler.rest handler.since o c') :
    ∃ handler', Visit here ⟨console, [handler'], c'⟩ ∧ handler'.console = handler.console ∧
      handler'.click = handler.click ∧ handler'.rest.outcome = some o := by
  obtain ⟨before, click, rest, since⟩ := handler
  dsimp only at hv h
  induction h with
  | done => exact ⟨_, hv, rfl, rfl, rfl⟩
  | raise => exact ⟨_, hv, rfl, rfl, rfl⟩
  | @randomUUID next c _ _ uuid _ ih =>
    refine ih (hv.step ?_)
    exact @Happens.randomUUID _ here _ 0 ⟨before, click, _, c⟩ next uuid rfl rfl
  | @fetch request next reply c _ _ _ answered _ ih =>
    refine ih ((hv.step (.others answered.reaches)).step ?_)
    exact @Happens.fetch _ here _ 0 ⟨before, click, _, c⟩ request next reply rfl rfl answered

/-- A click on a page without handlers under way comes to its end. -/
theorem Visit.click {console : Console ν} {click : Click} {asked : Page ν (Body ν)}
    {o : Except String (Body ν)} (hv : Visit here ⟨console, [], c⟩)
    (hasked : console.handler click = some asked) (h : Runs here asked c o c') :
    ∃ handler : Handler ν, Visit here ⟨console.cleared click, [handler], c'⟩ ∧
      handler.console = console ∧ handler.click = click ∧ handler.rest.outcome = some o :=
  (hv.step (.clicked hasked)).alone h

end Answers

/-! ### The request of the examples, among others -/

/-- The page in front of the small environment. -/
def visitSetting : Setting Int :=
  { sampleSetting with env := { sampleEnv with idFactory := pageEnv.idFactory } }

/-- The page when its form is filled in. -/
theorem visit_sampleConsole : Visit visitSetting ⟨sampleConsole, [], started localSettings 0 0 0⟩ :=
  (Visit.opened ⟨0, 0, 0, .refl⟩).step (.filled rfl rfl)

/-- The application of the page, when nothing has happened. -/
def sampleBrowser : Browser Int where
  server := (started localSettings 0 0 0).state
  requests := 0

/-- What comes of a click on the page, when no handler is under way. -/
def clickOn (console : Console Int) (click : Click) (b : Browser Int) :
    Option (Body Int × Browser Int) :=
  (console.handler click).bind fun asked =>
    (asked.run visitSetting.exec b).1.toOption.map (·, (asked.run visitSetting.exec b).2)

/-- It is a visit. -/
theorem Visit.clickOn {console : Console Int} {click : Click} {b b' : Browser Int}
    {c : HttpConfig Int} {payload : Body Int} (hv : Visit visitSetting ⟨console, [], c⟩)
    (hs : c.state = b.server) (hn : c.threads.length = b.requests)
    (h : Web.clickOn console click b = some (payload, b')) :
    ∃ handler c', Visit visitSetting ⟨console.cleared click, [handler], c'⟩ ∧
      handler.console = console ∧ handler.click = click ∧
      handler.rest.outcome = some (.ok payload) ∧
      c'.state = b'.server ∧ c'.threads.length = b'.requests := by
  obtain ⟨asked, hasked, h⟩ := Option.bind_eq_some_iff.mp h
  obtain ⟨value, ho, h⟩ := Option.map_eq_some_iff.mp h
  cases h
  have hrun : asked.run visitSetting.exec b = (.ok payload, (asked.run visitSetting.exec b).2) := by
    refine Prod.ext ?_ rfl
    cases hr : (asked.run visitSetting.exec b).1 with
    | ok value =>
      rw [hr] at ho
      cases ho
      rfl
    | error message =>
      rw [hr] at ho
      cases ho
  obtain ⟨c', hruns, hs', hn'⟩ := runs_run asked hrun hs hn
  obtain ⟨handler, hv', hconsole, hclick, ho⟩ := hv.click hasked hruns
  exact ⟨handler, c', hv', hconsole, hclick, ho, hs', hn'⟩

/-- The form is planned, and the plan is shown. -/
theorem shown_stored_sampleConsole : ∃ tab payload, Visit visitSetting tab ∧
    tab.console.workflow = some payload ∧ ∃ w w' : Workflow, payload = .workflow w.response ∧
      tab.server.state.service.stored w.workflowId = some w' := by
  have h : (clickOn sampleConsole .submit sampleBrowser).isSome = true := by decide +kernel
  obtain ⟨⟨payload, b⟩, h⟩ := Option.isSome_iff_exists.mp h
  obtain ⟨handler, c, hv, -, -, ho, -⟩ := visit_sampleConsole.clickOn rfl rfl h
  have hshown := hv.step (.ended (i := 0) rfl ho)
  obtain ⟨w, w', he, -, hstored, -⟩ := shown_stored pageEnv_injective hshown payload rfl
  exact ⟨_, payload, hshown, rfl, w, w', he, hstored⟩

/-- The proposal is approved, by the button. -/
theorem decision_recorded_sampleConsole : ∃ (tab : Tab Int) (handler : Handler Int)
    (w : Workflow) (approval : ApprovalDecision), Visit visitSetting tab ∧
      handler ∈ tab.handlers ∧ handler.click = .decide .approved ∧
      handler.rest.outcome = some (.ok (.workflow w.response)) ∧
      w.approvalDecision = some approval ∧ approval.decision = .approved := by
  have h : ((clickOn sampleConsole .submit sampleBrowser).bind fun planned =>
      clickOn ((sampleConsole.cleared .submit).told (.ok planned.1)) (.decide .approved)
        planned.2).isSome = true := by decide +kernel
  obtain ⟨⟨payload', b'⟩, h⟩ := Option.isSome_iff_exists.mp h
  obtain ⟨⟨payload, b⟩, h₁, h₂⟩ := Option.bind_eq_some_iff.mp h
  obtain ⟨handler, c, hv, -, -, ho, hs, hn⟩ := visit_sampleConsole.clickOn rfl rfl h₁
  obtain ⟨handler', c', hv', -, hclick, ho', -⟩ :=
    (hv.step (.ended (i := 0) rfl ho)).clickOn hs hn h₂
  obtain ⟨w, approval, hw, -, ha, hd, -⟩ :=
    decision_recorded pageEnv_injective hv' List.mem_cons_self hclick ho'
  cases hw
  exact ⟨_, handler', w, approval, hv', List.mem_cons_self, hclick, ho', ha, hd⟩

end AgenticDelivery.Web
