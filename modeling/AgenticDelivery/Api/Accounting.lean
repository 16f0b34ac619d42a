import AgenticDelivery.Api.Warrants

/-! # Every call accounts for what it does

One lemma for each method of the service: on each of its paths it records only what
it has seen, and notes all that it has stored. -/
namespace AgenticDelivery.Api
open AgenticDelivery.Atomic AgenticDelivery.Data AgenticDelivery.Governance AgenticDelivery.Runtime
open Service Program

variable {env : Environment} {call : Call} {log : List CallEvent} {w w' : Workflow}
  {owed : List (String × String × String)} {d : String × String × String}

/-! ## Debts -/

theorem owes_nothing (h : dues log = []) : Owes call log [] :=
  .inr fun _ hd => by rw [h] at hd; cases hd

/-- An event that stores nothing adds no debt. -/
theorem Owes.snoc (h : Owes call log owed) (e : CallEvent) (he : dueOf e = none) :
    Owes call (log ++ [e]) owed := by
  rcases h with ⟨task, error, h⟩ | h
  · exact .inl ⟨task, error, List.mem_append_left _ h⟩
  · refine .inr fun d hd => ?_
    rw [dues_append, dues_cons, he] at hd
    rw [notes_append]
    exact (h d (by simpa using hd)).imp_right (List.mem_append_left _)

/-- What is stored is owed. -/
theorem Owes.stored (h : Owes call log owed) {e : CallEvent} (he : dueOf e = some d) :
    Owes call (log ++ [e]) (d :: owed) := by
  rcases h with ⟨task, error, h⟩ | h
  · exact .inl ⟨task, error, List.mem_append_left _ h⟩
  · refine .inr fun d' hd => ?_
    rw [dues_append, dues_cons, he] at hd
    rw [notes_append]
    rcases List.mem_append.mp hd with hd | hd
    · exact (h d' hd).imp (List.mem_cons_of_mem _) (List.mem_append_left _)
    · exact .inl (List.mem_cons.mpr (.inl (by simpa using hd)))

/-- What has been noted before it was stored is not owed. -/
theorem Owes.prepaid (h : Owes call log owed) {e : CallEvent} (he : dueOf e = some d)
    (hn : call.note d.1 d.2.1 (some d.2.2) ∈ notes log) : Owes call (log ++ [e]) owed := by
  rcases h.stored he with h | h
  · exact .inl h
  · refine .inr fun d' hd => ?_
    rcases h d' hd with hm | hm
    · rcases List.mem_cons.mp hm with rfl | hm
      · rw [notes_append]
        exact .inr (List.mem_append_left _ hn)
      · exact .inl hm
    · exact .inr hm

/-- What is noted is owed no more. -/
theorem Owes.noted {action outcome : String} {id : String}
    (h : Owes call log ((action, outcome, id) :: owed)) :
    Owes call (log ++ [⟨.auditRecord action outcome (some call.principal.subject) (some id)
      call.correlationId, ()⟩]) owed := by
  rcases h with ⟨task, error, h⟩ | h
  · exact .inl ⟨task, error, List.mem_append_left _ h⟩
  · refine .inr fun d hd => ?_
    rw [notes_append]
    rcases h d (by simpa using hd) with hm | hm
    · rcases List.mem_cons.mp hm with rfl | hm
      · exact .inr (List.mem_append_right _ List.mem_cons_self)
      · exact .inl hm
    · exact .inr (List.mem_append_left _ hm)

/-! ## Who may read

Whoever may take a step of a workflow may read it. -/

theorem mayRead_of_mem {p : Principal} {role : Role} (h : role ∈ p.roles)
    (hr : role ∈ ({.reviewer, .operator, .administrator} : Finset Role)) (w : Workflow) :
    p.MayRead w :=
  .inr (Finset.nonempty_iff_ne_empty.mp ⟨role, Finset.mem_inter.mpr ⟨h, hr⟩⟩)

theorem Principal.MayPlan.mayRead {p : Principal} (h : p.MayPlan w) : p.MayRead w := by
  rcases h with h | h
  · exact .inl h
  · exact mayRead_of_mem h (by decide) w

theorem Principal.MayDecide.mayRead {p : Principal} (h : p.MayDecide w) : p.MayRead w := by
  obtain ⟨role, hm⟩ := Finset.nonempty_iff_ne_empty.mpr h.1
  obtain ⟨hp, hr⟩ := Finset.mem_inter.mp hm
  exact mayRead_of_mem hp (by revert hr; cases role <;> decide) w

theorem Principal.MayProcess.mayRead {p : Principal} (h : p.MayProcess) (w : Workflow) :
    p.MayRead w := by
  obtain ⟨role, hm⟩ := Finset.nonempty_iff_ne_empty.mpr h
  obtain ⟨hp, hr⟩ := Finset.mem_inter.mp hm
  exact mayRead_of_mem hp (by revert hr; cases role <;> decide) w

/-! ## Rules -/

/-- The program accounts for what it does, on each of its paths. -/
abbrev Accounts (env : Environment) (call : Call) (p : Service Workflow) (log : List CallEvent) :
    Prop :=
  p.Keeps (accounting env call) log

section Rules

theorem accounts_done (ho : Owes call log []) {value : Workflow} (hseen : value ∈ seen log)
    (hmay : call.principal.MayRead value) : Accounts env call (.done value) log :=
  ⟨ho, hseen, hmay⟩

theorem accounts_fail (ho : Owes call log []) (kind : ErrorKind) (detail : String) :
    Accounts env call (fail kind detail) log :=
  ⟨ho, .inl trivial⟩

/-- The refusal of a policy. -/
theorem accounts_denyProcessing (ho : Owes call log []) {context : ProcessingContext}
    (h : (env.policy context).executionAllowed = false) :
    Accounts env call (denyProcessing (env.policy context)) log := by
  unfold denyProcessing
  cases hr : (env.policy context).reasons with
  | cons reason rest => exact accounts_fail ho _ _
  | nil => exact ⟨ho, .inr (.inl ⟨context, h, hr, rfl⟩)⟩

/-- Nothing goes on after a refusal. -/
theorem accounts_denied (ho : Owes call log []) {context : ProcessingContext}
    (h : (env.policy context).executionAllowed = false) {f : Workflow → Service Workflow} :
    Accounts env call (denyProcessing (env.policy context) >>= f) log := by
  have hraise := accounts_denyProcessing ho h
  obtain ⟨e, he⟩ := denyProcessing_eq (env.policy context)
  rw [he] at hraise ⊢
  exact hraise

theorem accounts_audit {action outcome correlationId : String} {subject resourceId : Option String}
    {f : Unit → Service Workflow} (hs : subject = some call.principal.subject)
    (hc : correlationId = call.correlationId)
    (hb : Borne env (· ∈ seen log) (· ∈ missed log) call action outcome resourceId)
    (h : Accounts env call (f ()) (log ++ [⟨.auditRecord action outcome
      (some call.principal.subject) resourceId call.correlationId, ()⟩])) :
    Accounts env call (auditRecord action outcome subject resourceId correlationId >>= f) log := by
  subst hs hc
  exact .perform ⟨rfl, hb⟩ fun _ _ => h

theorem accounts_get {id : String} {f : Option Workflow → Service Workflow}
    (h : ∀ found, (∀ w, found = some w → w.workflowId = id) →
      Accounts env call (f found) (log ++ [⟨.repositoryGet id, found⟩])) :
    Accounts env call (repositoryGet id >>= f) log :=
  .perform trivial h

theorem accounts_classify {text : String} {declared : Option (Finset DataCategory)}
    {f : DataProfile → Service Workflow}
    (h : Accounts env call (f (env.classifier text declared))
      (log ++ [⟨.classify text declared, env.classifier text declared⟩])) :
    Accounts env call (classify text declared >>= f) log := by
  refine .perform trivial fun r hr => ?_
  cases hr
  exact h

theorem accounts_evaluate {context : ProcessingContext} {f : PolicyDecision → Service Workflow}
    (h : Accounts env call (f (env.policy context))
      (log ++ [⟨.evaluate context, env.policy context⟩])) :
    Accounts env call (evaluate context >>= f) log := by
  refine .perform trivial fun r hr => ?_
  cases hr
  exact h

theorem accounts_runtimePlan {planningInput : PlanningInput}
    {f : Except RuntimeError PlanningResult → Service Workflow}
    (h : ∀ n, Accounts env call (f (env.runtime n planningInput))
      (log ++ [⟨.runtimePlan planningInput, env.runtime n planningInput⟩])) :
    Accounts env call (runtimePlan planningInput >>= f) log := by
  refine .perform trivial fun r hr => ?_
  obtain ⟨n, rfl⟩ := hr
  exact h n

theorem accounts_idFactory {f : String → Service Workflow}
    (h : ∀ id, Accounts env call (f id) (log ++ [⟨.idFactory, id⟩])) :
    Accounts env call (idFactory >>= f) log :=
  .perform trivial fun id _ => h id

theorem accounts_now {f : Datetime → Service Workflow}
    (h : ∀ now, Accounts env call (f now) (log ++ [⟨.nowFactory, now⟩])) :
    Accounts env call (nowFactory >>= f) log :=
  .perform trivial fun now _ => h now

theorem accounts_utcNow {f : Datetime → Service Workflow}
    (h : ∀ now, Accounts env call (f now) (log ++ [⟨.utcNow, now⟩])) :
    Accounts env call (utcNow >>= f) log :=
  .perform trivial fun now _ => h now

theorem accounts_complete {taskId : String} {f : Unit → Service Workflow}
    (h : Accounts env call (f ()) (log ++ [⟨.complete taskId, ()⟩])) :
    Accounts env call (complete taskId >>= f) log :=
  .perform trivial fun _ _ => h

/-- A store that refuses raises an error of the application, and owes nothing for it. -/
theorem accounts_create (ho : Owes call log []) {key : String} {f : Workflow → Service Workflow}
    (h : ∀ v, v.ownerId = w.ownerId → SameRequest v w →
      Accounts env call (f v) (log ++ [⟨.repositoryCreate w key, .ok v⟩])) :
    Accounts env call (repositoryCreate w key >>= f) log := by
  refine .performOrRaise trivial ?_ ?_
  · rintro _ e hr rfl
    exact ⟨ho.snoc _ rfl, .inl hr⟩
  · rintro _ v hr rfl
    exact h v hr.1 hr.2

theorem accounts_update (ho : Owes call log []) {v : Nat} {f : Workflow → Service Workflow}
    (h : Accounts env call (f w) (log ++ [⟨.repositoryUpdate w v, .ok w⟩])) :
    Accounts env call (repositoryUpdate w v >>= f) log := by
  refine .performOrRaise trivial ?_ ?_
  · rintro _ e hr rfl
    cases hr
    exact ⟨ho.snoc _ rfl, .inl trivial⟩
  · rintro _ u hr rfl
    cases hr
    exact h

theorem accounts_enqueue {task : ExecutionTask} {f : ExecutionTask → Service Workflow}
    (hseen : w ∈ seen log) (ht : Tasked w task)
    (h : ∀ t, Accounts env call (f t) (log ++ [⟨.enqueue task, .ok t⟩])) :
    Accounts env call (enqueue task >>= f) log := by
  refine .performOrRaise ⟨w, hseen, ht⟩ ?_ ?_
  · rintro _ e hr rfl
    cases hr e rfl
    exact ⟨.inl ⟨task, _, List.mem_append_right _ List.mem_cons_self⟩, .inl trivial⟩
  · rintro _ t - rfl
    exact h t

theorem accounts_claimNext {f : Option ExecutionTask → Service Workflow}
    (h : ∀ claimed, Accounts env call (f claimed) (log ++ [⟨.claimNext, .ok claimed⟩])) :
    Accounts env call (claimNext >>= f) log := by
  refine .performOrRaise trivial ?_ ?_
  · rintro _ e ⟨_, hr⟩ rfl
    cases hr
  · rintro _ claimed - rfl
    exact h claimed

theorem accounts_execute {task : ExecutionTask} {proposal : ToolActionProposal} {now : Datetime}
    {f : ToolExecutionResult → Service Workflow}
    (h : ∀ result, Accounts env call (f result)
      (log ++ [⟨.execute task proposal now, .ok result⟩])) :
    Accounts env call (execute task proposal now >>= f) log := by
  refine .performOrRaise trivial ?_ ?_
  · rintro _ e ⟨_, hr⟩ rfl
    cases hr
  · rintro _ result - rfl
    exact h result

end Rules

/-! ## The methods -/

section Methods
variable {principal : Principal} {workflowId key correlationId reason : String}
  {decision : Decision} {task : ExecutionTask} {proposal : ToolActionProposal} {now : Datetime}

theorem accounts_getCall :
    Accounts env (.get principal workflowId correlationId)
      (WorkflowService.get principal workflowId correlationId) [] := by
  refine accounts_get fun found hid => ?_
  have hidden : (found = none ∨ ∃ w, found = some w ∧ ¬principal.MayRead w) →
      Accounts env (.get principal workflowId correlationId)
        (WorkflowService.get.notFound principal workflowId correlationId)
        ([] ++ [⟨.repositoryGet workflowId, found⟩]) := by
    intro h
    refine accounts_audit rfl rfl (.readHidden ?_) (accounts_fail (owes_nothing (by simp)) _ _)
    rcases h with rfl | ⟨w, rfl, hno⟩
    · exact .inl (by simp)
    · exact .inr ⟨w, by simp, hid w rfl, hno⟩
  cases found with
  | none => exact hidden (.inl rfl)
  | some w =>
    obtain rfl := hid w rfl
    dsimp only
    split
    · rename_i h
      refine hidden (.inr ⟨w, rfl, ?_⟩)
      rw [Principal.MayRead, not_or, not_not]
      exact h
    · rename_i h
      rw [not_and_or, not_not] at h
      exact accounts_audit rfl rfl (.read (by simp) h)
        (accounts_done (owes_nothing (by simp)) (by simp) h)

theorem accounts_createCall (r : CreateRequest) :
    Accounts env (.create r) (WorkflowService.create env r) [] := by
  unfold WorkflowService.create
  by_cases hroles : r.principal.roles ∩ {.requester, .administrator} = ∅
  · rw [if_pos hroles]
    exact accounts_audit rfl rfl (.createDenied hroles) (accounts_fail (owes_nothing (by simp)) _ _)
  rw [if_neg hroles]
  dsimp only
  by_cases hoverlay : r.overlayIds.toFinset ≠ {"common-us-baseline"}
  · rw [if_pos hoverlay]
    exact accounts_fail (owes_nothing rfl) _ _
  rw [if_neg hoverlay]
  rw [not_not] at hoverlay
  refine accounts_classify (accounts_evaluate
    (accounts_audit rfl rfl (.intake hroles hoverlay) ?_))
  split
  · rename_i hrefused
    exact accounts_denyProcessing (owes_nothing (by simp)) hrefused
  rename_i hallowed
  rw [Bool.not_eq_false] at hallowed
  refine accounts_idFactory fun id => accounts_utcNow fun createdAt =>
    accounts_create (owes_nothing (by simp)) fun v hv hsame => ?_
  refine accounts_audit rfl rfl (.accepted ⟨hroles, hoverlay, hallowed⟩ (by simp) hv hsame) ?_
  exact accounts_done ((owes_nothing (by simp)).stored rfl).noted (by simp) (.inl hv)

theorem accounts_plan :
    Accounts env (.plan principal workflowId correlationId)
      (WorkflowService.plan env principal workflowId correlationId) [] := by
  refine accounts_get fun found hid => ?_
  have hidden : (found = none ∨ ∃ w, found = some w ∧ ¬principal.MayPlan w) →
      Accounts env (.plan principal workflowId correlationId)
        (WorkflowService.plan.notFound principal workflowId correlationId)
        ([] ++ [⟨.repositoryGet workflowId, found⟩]) := by
    intro h
    refine accounts_audit rfl rfl (.planHidden ?_) (accounts_fail (owes_nothing (by simp)) _ _)
    rcases h with rfl | ⟨w, rfl, hno⟩
    · exact .inl (by simp)
    · exact .inr ⟨w, by simp, hid w rfl, hno⟩
  cases found with
  | none => exact hidden (.inl rfl)
  | some w =>
  obtain rfl := hid w rfl
  dsimp only
  by_cases hauth : w.ownerId ≠ principal.subject ∧ .administrator ∉ principal.roles
  · rw [if_pos hauth]
    refine hidden (.inr ⟨w, rfl, ?_⟩)
    rw [Principal.MayPlan, not_or]
    exact hauth
  rw [if_neg hauth]
  have hmay : principal.MayPlan w := by
    simp only [not_and_or, not_not] at hauth
    exact hauth
  by_cases hplanned : w.planningResult ≠ none
  · rw [if_pos hplanned]
    exact accounts_done (owes_nothing (by simp)) (by simp) hmay.mayRead
  rw [if_neg hplanned]
  by_cases hstatus : w.status ≠ .received
  · rw [if_pos hstatus]
    exact accounts_fail (owes_nothing (by simp)) _ _
  rw [if_neg hstatus]
  refine accounts_evaluate
    (accounts_audit rfl rfl (.planning (by simp) hmay (not_not.mp hstatus)) ?_)
  by_cases hallowed : (env.policy (planningContext w.processingContext)).executionAllowed = false
  · rw [if_pos hallowed]
    exact accounts_denyProcessing (owes_nothing (by simp)) hallowed
  rw [if_neg hallowed]
  refine accounts_runtimePlan fun n => ?_
  cases hplan : env.runtime n (WorkflowService.planningInput w correlationId) with
  | error e =>
    cases e with
    | promptInjectionBlocked message =>
      exact accounts_audit rfl rfl (.injection (by simp) hmay hplan)
        (accounts_fail (owes_nothing (by simp)) _ _)
    | evaluationGateBlocked result =>
      exact accounts_audit rfl rfl (.gate (by simp) hmay hplan)
        (accounts_fail (owes_nothing (by simp)) _ _)
    | other message =>
      exact ⟨owes_nothing (by simp), .inr (.inr ⟨n, _, message, hplan, rfl⟩)⟩
  | ok result =>
    refine accounts_now fun now => accounts_utcNow fun at_ =>
      accounts_update (owes_nothing (by simp)) ?_
    generalize hw : w.applyPlanningResult result
      (env.policy (planningContext w.processingContext))
      (createToolProposal env.ticketSchema w.workflowId result now) at_ = w'
    have hborne : Borne env (· ∈ [w']) (fun _ => False)
        (.plan principal w'.workflowId correlationId) "workflow.plan" "evaluated"
        (some w'.workflowId) :=
      .planned (by simp) (by rw [← hw]; exact hmay) (by rw [← hw]; rfl)
    have hdue : dueOf ⟨.repositoryUpdate w' w.stateVersion, .ok w'⟩ =
        some ("workflow.plan", "evaluated", w'.workflowId) := by
      rw [← hw]
      rfl
    have hid : w'.workflowId = w.workflowId := by rw [← hw]; rfl
    rw [hid] at hborne hdue
    refine accounts_audit rfl rfl (hborne.mono (by simp) (by simp)) ?_
    refine accounts_done ((owes_nothing (by simp)).stored hdue).noted (by simp) ?_
    rw [← hw]
    exact hmay.mayRead

/-- What a decision stores, with the events of its log before and after the queue. -/
theorem accounts_enqueueApproved {f : Unit → Service Workflow}
    (ht : decision = .approved →
      ∃ v ∈ seen log, Tasked v (createExecutionTask w.workflowId proposal.proposalDigest))
    (h : ∀ log', (log' = [] ∨ ∃ task t, log' = [⟨.enqueue task, .ok t⟩]) →
      Accounts env call (f ()) (log ++ log')) :
    Accounts env call (WorkflowService.enqueueApproved decision w proposal >>= f) log := by
  cases decision with
  | approved =>
    simp only [WorkflowService.enqueueApproved, Program.bind_assoc, pure_eq, done_bind]
    obtain ⟨v, hv, ht⟩ := ht rfl
    exact accounts_enqueue hv ht fun t => h _ (.inr ⟨_, t, rfl⟩)
  | rejected =>
    have := h [] (.inl rfl)
    rw [List.append_nil] at this
    exact this

theorem accounts_replay {existing : ApprovalDecision} (hd : dues log = []) (hseen : w ∈ seen log)
    (hmay : principal.MayDecide w) (ha : w.approvalDecision = some existing) :
    Accounts env (.decideApproval principal workflowId decision reason key correlationId)
      (WorkflowService.replayDecision w existing decision key) log := by
  unfold WorkflowService.replayDecision
  split
  · exact accounts_fail (owes_nothing hd) _ _
  split
  · exact accounts_fail (owes_nothing hd) _ _
  rename_i hdec
  split
  · rename_i proposal hp
    refine accounts_enqueueApproved (fun h => ⟨w, hseen, tasked_create hp ha ?_⟩)
      fun log' hlog => accounts_done (owes_nothing ?_) ?_ hmay.mayRead
    · rw [← h]
      exact not_not.mp hdec
    · rcases hlog with rfl | ⟨task, t, rfl⟩ <;> simp [hd]
    · rw [seen_append]
      exact List.mem_append_left _ hseen
  · exact accounts_done (owes_nothing hd) hseen hmay.mayRead

theorem accounts_firstDecision (hd : dues log = []) (hmay : principal.MayDecide w)
    (hn : w.approvalDecision = none) (hp : w.actionProposal = some proposal) :
    Accounts env (.decideApproval principal w.workflowId decision reason key correlationId)
      (WorkflowService.firstDecision principal w.workflowId w proposal decision reason key
        correlationId) log := by
  refine accounts_now fun now => ?_
  split
  · refine accounts_update (owes_nothing (by simp [hd])) ?_
    refine accounts_audit rfl rfl
      (.proposalExpired (w := w.expire now) (by simp) hmay rfl hn) ?_
    have hdue : dueOf ⟨.repositoryUpdate (w.expire now) w.stateVersion, .ok (w.expire now)⟩ =
        some ("workflow.approval", "expired", w.workflowId) := by
      simp [Workflow.announcement, Workflow.expire, hn]
    exact accounts_fail ((owes_nothing (by simp [hd])).stored hdue).noted _ _
  · have ht : decision = .approved → Tasked (w.recordApproval
        (createApprovalDecision proposal principal.subject decision reason key now) now)
        (createExecutionTask w.workflowId proposal.proposalDigest) :=
      fun h => tasked_create hp rfl h
    refine accounts_update (owes_nothing (by simp [hd])) (accounts_enqueueApproved
      (fun h => ⟨_, by simp, ht h⟩) fun log' hlog => ?_)
    generalize hw : w.recordApproval
      (createApprovalDecision proposal principal.subject decision reason key now) now = w'
    have hborne : Borne env (· ∈ [w']) (fun _ => False)
        (.decideApproval principal w'.workflowId decision reason key correlationId)
        "workflow.approval" decision.value (some w'.workflowId) :=
      .decided (by simp) (by rw [← hw]; exact hmay) (by rw [← hw]; rfl) rfl rfl rfl
    have hdue : dueOf ⟨.repositoryUpdate w' w.stateVersion, .ok w'⟩ =
        some ("workflow.approval", decision.value, w'.workflowId) := by
      rw [← hw]
      cases decision <;> rfl
    have hid : w'.workflowId = w.workflowId := by rw [← hw]; rfl
    rw [hid] at hborne hdue
    refine accounts_audit rfl rfl (hborne.mono (by simp) (by simp)) ?_
    have howed : Owes (.decideApproval principal w.workflowId decision reason key correlationId)
        (log ++ [⟨.nowFactory, now⟩] ++ [⟨.repositoryUpdate w' w.stateVersion, .ok w'⟩] ++ log')
        [("workflow.approval", decision.value, w.workflowId)] := by
      rcases hlog with rfl | ⟨task, t, rfl⟩
      · rw [List.append_nil]
        exact (owes_nothing (by simp [hd])).stored hdue
      · exact ((owes_nothing (by simp [hd])).stored hdue).snoc _ rfl
    exact accounts_done howed.noted (by simp) (by rw [← hw]; exact hmay.mayRead)

theorem accounts_decideApproval :
    Accounts env (.decideApproval principal workflowId decision reason key correlationId)
      (WorkflowService.decideApproval principal workflowId decision reason key correlationId)
      [] := by
  unfold WorkflowService.decideApproval
  by_cases hroles : principal.roles ∩ {.reviewer, .administrator} = ∅
  · rw [if_pos hroles]
    exact accounts_audit rfl rfl (.decideDenied hroles)
      (accounts_fail (owes_nothing (by simp)) _ _)
  rw [if_neg hroles]
  refine accounts_get fun found hid => ?_
  cases found with
  | none => exact accounts_fail (owes_nothing (by simp)) _ _
  | some w =>
  obtain rfl := hid w rfl
  dsimp only
  by_cases howner : w.ownerId = principal.subject
  · rw [if_pos howner]
    exact accounts_audit rfl rfl (.selfApproval (by simp) howner)
      (accounts_fail (owes_nothing (by simp)) _ _)
  rw [if_neg howner]
  cases ha : w.approvalDecision with
  | some existing => exact accounts_replay (by simp) (by simp) ⟨hroles, howner⟩ ha
  | none =>
  cases hp : w.actionProposal with
  | none => exact accounts_fail (owes_nothing (by simp)) _ _
  | some proposal =>
  dsimp only
  split
  · exact accounts_fail (owes_nothing (by simp)) _ _
  · exact accounts_firstDecision (by simp) ⟨hroles, howner⟩ ha hp

/-- The end of a delivery: its only debt is the completion. -/
theorem accounts_finishExecution (ho : Owes (.processNextTask principal correlationId) log [])
    (hmay : principal.MayProcess) (ha : w.approvalDecision ≠ none) :
    Accounts env (.processNextTask principal correlationId)
      (WorkflowService.finishExecution task principal.subject correlationId proposal now w)
      log := by
  refine accounts_execute fun result => ?_
  obtain ⟨approval, ha⟩ := Option.ne_none_iff_exists'.mp ha
  cases hw : w.completeExecution result now with
  | error e => rw [Workflow.completeExecution, ha] at hw; cases hw
  | ok w' =>
    obtain ⟨_, -, hw⟩ := completeExecution_ok hw
    rw [orRaise_ok, done_bind]
    have hid : w'.workflowId = w.workflowId := by rw [hw]
    have hborne : Borne env (· ∈ [w']) (fun _ => False) (.processNextTask principal correlationId)
        "task.process" "completed" (some w'.workflowId) :=
      .completed (by simp) hmay (by rw [hw]) (by rw [hw])
    have hdue : dueOf ⟨.repositoryUpdate w' w.stateVersion, .ok w'⟩ =
        some ("task.process", "completed", w'.workflowId) := by
      rw [hw]
      rfl
    refine accounts_update (ho.snoc _ rfl) (accounts_complete ?_)
    rw [← hid]
    refine accounts_audit rfl rfl (hborne.mono (by simp) (by simp)) ?_
    exact accounts_done (((ho.snoc _ rfl).stored hdue).snoc _ rfl).noted (by simp)
      (hmay.mayRead w')

theorem accounts_startExecution {approval : ApprovalDecision} (hd : dues log = [])
    (hseen : w ∈ seen log) (hmay : principal.MayProcess) (hs : w.status = .approved)
    (ha : w.approvalDecision = some approval) :
    Accounts env (.processNextTask principal correlationId)
      (WorkflowService.startExecution task principal.subject correlationId w approval now >>=
        WorkflowService.finishExecution task principal.subject correlationId proposal now) log := by
  unfold WorkflowService.startExecution
  by_cases hlate : now > approval.expiresAt
  · rw [if_pos hlate]
    simp only [Program.bind_assoc]
    refine accounts_update (owes_nothing hd) (accounts_complete ?_)
    refine accounts_audit rfl rfl (.approvalExpired (w := w.expire now) (by simp) hmay rfl ha) ?_
    have hdue : dueOf ⟨.repositoryUpdate (w.expire now) w.stateVersion, .ok (w.expire now)⟩ =
        some ("task.process", "approval_expired", w.workflowId) := by
      simp [Workflow.announcement, Workflow.expire, ha]
    exact accounts_fail (((owes_nothing hd).stored hdue).snoc _ rfl).noted _ _
  rw [if_neg hlate]
  simp only [Program.bind_assoc]
  refine accounts_evaluate (accounts_audit rfl rfl (.execution (by simp [hseen]) hmay hs) ?_)
  rw [ite_bind]
  by_cases hallowed : (env.policy (executionContext w.processingContext)).executionAllowed = false
  · rw [if_pos hallowed]
    exact accounts_denied (owes_nothing (by simp [hd])) hallowed
  rw [if_neg hallowed]
  refine accounts_update (owes_nothing (by simp [hd])) ?_
  refine accounts_finishExecution ?_ hmay (by simp [Workflow.beginExecution, ha])
  -- the policy's answer was noted before the workflow was stored with it
  exact (owes_nothing (by simp [hd])).prepaid rfl
    (by simp [Workflow.announcement, Workflow.beginExecution, Call.note])

theorem accounts_deliverTask (hd : dues log = []) (hseen : w ∈ seen log)
    (hmay : principal.MayProcess) :
    Accounts env (.processNextTask principal correlationId)
      (WorkflowService.deliverTask task principal.subject correlationId w) log := by
  unfold WorkflowService.deliverTask
  split
  · rename_i proposal approval hp ha
    split
    · exact accounts_fail (owes_nothing hd) _ _
    refine accounts_now fun now => ?_
    by_cases hs : w.status = .approved
    · rw [if_pos hs]
      exact accounts_startExecution (by simp [hd]) (by simp [hseen]) hmay hs ha
    rw [if_neg hs]
    split
    · exact accounts_fail (owes_nothing (by simp [hd])) _ _
    · exact accounts_finishExecution (owes_nothing (by simp [hd])) hmay (by rw [ha]; nofun)
  · exact accounts_fail (owes_nothing hd) _ _

theorem accounts_processNextTask :
    Accounts env (.processNextTask principal correlationId)
      (WorkflowService.processNextTask principal correlationId) [] := by
  unfold WorkflowService.processNextTask
  by_cases hroles : principal.roles ∩ {.operator, .administrator} = ∅
  · rw [if_pos hroles]
    exact accounts_audit rfl rfl (.processDenied hroles)
      (accounts_fail (owes_nothing (by simp)) _ _)
  rw [if_neg hroles]
  refine accounts_claimNext fun claimed => ?_
  cases claimed with
  | none => exact accounts_fail (owes_nothing (by simp)) _ _
  | some task =>
  refine accounts_get fun found _ => ?_
  cases found with
  | none => exact accounts_fail (owes_nothing (by simp)) _ _
  | some w =>
  dsimp only
  split
  · split
    · exact accounts_fail (owes_nothing (by simp)) _ _
    · exact accounts_complete (accounts_done (owes_nothing (by simp)) (by simp)
        (Principal.MayProcess.mayRead hroles w))
  · exact accounts_deliverTask (by simp) (by simp) hroles

end Methods

/-- **Every call accounts for what it does.** -/
theorem accounts_body (env : Environment) (call : Call) : Accounts env call (call.body env) [] := by
  cases call with
  | create r => exact accounts_createCall r
  | get principal workflowId correlationId => exact accounts_getCall
  | plan principal workflowId correlationId => exact accounts_plan
  | decideApproval principal workflowId decision reason key correlationId =>
    exact accounts_decideApproval
  | processNextTask principal correlationId => exact accounts_processNextTask

/-! ## Runs -/

/-- The queue refuses a task because its identifier is bound. -/
theorem enqueue_error {queue : InMemoryTaskQueue} {e : Failure}
    (h : (queue.enqueue task).1 = .error e) : e = misboundTask := by
  unfold InMemoryTaskQueue.enqueue at h
  split at h
  · split at h <;> cases h
    rfl
  · cases h

/-- **What the ports answer** in the configurations of a run. -/
theorem Reachable.answer {c : PoolConfig} (hf : Function.Injective env.idFactory)
    (hc : Reachable env c) {tid : Nat} {t : Caller} {op : Op} {next : Reply op → Service Workflow}
    (ht : c.threads[tid]? = some t) (hr : t.rest = .call op next) :
    Answer env op (exec env tid op c.state).1 := by
  have h := hc.consistent hf
  cases op with
  | repositoryCreate w key =>
    rcases create_cases h tid w key with ⟨hb, he⟩ | ⟨id, v, hb, hv, ⟨hs, he⟩ | ⟨-, he⟩⟩ <;> rw [he]
    · exact ⟨rfl, rfl, rfl⟩
    · obtain ⟨v', hv', ho⟩ := h.bound hb
      rw [hv] at hv'
      cases hv'
      exact ⟨ho, hs⟩
    · trivial
  | repositoryGet id => exact fun w hw => (h.stored hw).1
  | repositoryUpdate w v =>
    rcases update_cases env tid c.state w v with ⟨he, -⟩ | ⟨_, -, -, he⟩ <;> rw [he] <;> rfl
  | auditRecord => trivial
  | runtimePlan => exact ⟨_, rfl⟩
  | classify => rfl
  | evaluate => rfl
  | enqueue task => exact fun e he => enqueue_error he
  | claimNext =>
    rcases claimNext_cases h tid with ⟨-, he⟩ | ⟨_, _, _, -, -, -, he⟩ <;> rw [he] <;>
      exact ⟨_, rfl⟩
  | complete => trivial
  | execute task proposal now =>
    obtain ⟨_, _, _, w, -, -, -, hw, -, -, hq, hp, hs, -⟩ := hc.guar hf ht hr
    obtain ⟨r, hok, -⟩ := execute_ok h hw hq hp hs tid now
    exact ⟨r, hok⟩
  | idFactory => trivial
  | nowFactory => trivial
  | utcNow => trivial

/-- **Every caller of a run accounts for what it does.** -/
theorem Reachable.accounts {c : PoolConfig} (hf : Function.Injective env.idFactory)
    (hc : Reachable env c) {tid : Nat} {t : Caller} (ht : c.threads[tid]? = some t) :
    Judged (accounting env t.call) t.log ∧ Accounts env t.call t.rest t.log := by
  obtain ⟨now, utc, h⟩ := hc
  refine h.judged rfl (accounts_body env) ?_ ht
  exact fun c₁ tid t op next h₁ ht hr => Reachable.answer hf ⟨now, utc, h₁⟩ ht hr

end AgenticDelivery.Api
