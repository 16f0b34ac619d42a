import AgenticDelivery.Api.Promises

/-! # Every call keeps its promises

One lemma for each method of the service, and the discipline of the whole pool. -/
namespace AgenticDelivery.Api
open AgenticDelivery.Atomic AgenticDelivery.Data AgenticDelivery.Governance AgenticDelivery.Runtime
open Service Program

variable {env : Environment} {tid : Nat} {call : Call} {born : State} {log : List CallEvent}
  {s s' : State} {w w' : Workflow}

/-- What `denyProcessing` raises. -/
theorem denyProcessing_eq (decision : PolicyDecision) :
    ∃ e, denyProcessing decision = .raise e := by
  unfold denyProcessing
  split
  · exact ⟨_, rfl⟩
  · exact ⟨_, rfl⟩

theorem verified_getCall (principal : Principal) (workflowId correlationId : String) :
    Verified env tid (.get principal workflowId correlationId) born
      (WorkflowService.get principal workflowId correlationId) [] s := by
  have hnf : ∀ log s, Verified env tid (.get principal workflowId correlationId) born
      (WorkflowService.get.notFound principal workflowId correlationId) log s :=
    fun _ _ => verified_audit fun _ _ _ _ => trivial
  refine verified_get (fun _ _ _ => hnf _ _) fun s' w hr hw => ?_
  dsimp only
  split
  · exact hnf _ _
  · exact verified_audit fun _ _ _ _ => trivial

theorem verified_plan (principal : Principal) (workflowId correlationId : String) :
    Verified env tid (.plan principal workflowId correlationId) born
      (WorkflowService.plan env principal workflowId correlationId) [] s := by
  have hnf : ∀ log s, Verified env tid (.plan principal workflowId correlationId) born
      (WorkflowService.plan.notFound principal workflowId correlationId) log s :=
    fun _ _ => verified_audit fun _ _ _ _ => trivial
  refine verified_get (fun _ _ _ => hnf _ _) fun s1 w hr hw => ?_
  obtain ⟨rfl, hk⟩ := Known.of_stored hr.inv hw
  dsimp only
  by_cases hauth : w.ownerId ≠ principal.subject ∧ .administrator ∉ principal.roles
  · rw [if_pos hauth]
    exact hnf _ _
  rw [if_neg hauth]
  by_cases hplanned : w.planningResult ≠ none
  · rw [if_pos hplanned]
    exact fun _ _ => trivial
  rw [if_neg hplanned]
  by_cases hstatus : w.status ≠ .received
  · rw [if_pos hstatus]
    exact fun _ _ => trivial
  rw [if_neg hstatus]
  refine verified_evaluate fun s2 hr2 => verified_audit fun s3 hr3 => ?_
  by_cases hallowed : (env.policy (planningContext w.processingContext)).executionAllowed = false
  · rw [if_pos hallowed]
    obtain ⟨e, he⟩ := denyProcessing_eq (env.policy (planningContext w.processingContext))
    rw [he]
    exact fun _ _ => trivial
  rw [if_neg hallowed]
  refine verified_runtimePlan fun s4 n hr4 => ?_
  cases hplan : env.runtime n (WorkflowService.planningInput w correlationId) with
  | error e =>
    cases e with
    | promptInjectionBlocked message => exact verified_audit fun _ _ _ _ => trivial
    | evaluationGateBlocked result => exact verified_audit fun _ _ _ _ => trivial
    | other message => exact fun _ _ => trivial
  | ok result =>
    refine verified_now fun s5 hr5 => verified_utcNow fun s6 hr6 => ?_
    have hmay : principal.MayPlan w := by
      simp only [not_and_or, not_not] at hauth
      exact hauth
    have ha : Advance env (.plan principal w.workflowId correlationId) w
        (w.applyPlanningResult result (env.policy (planningContext w.processingContext))
          (createToolProposal env.ticketSchema w.workflowId result s5.now) s6.utc) :=
      .plan hmay (not_not.mp hstatus) (not_not.mp hplanned) (by simpa using hallowed) hplan
    have hopen : w.status ≠ .completed := by rw [not_not.mp hstatus]; decide
    refine verified_update (hk.rely (hr2.trans (hr3.trans (hr4.trans (hr5.trans hr6)))))
      (by simp) ha (fun r => hk.no_ticket hopen rfl r) (fun _ _ _ _ _ _ => trivial) ?_
    exact fun s7 hr7 _ _ => verified_audit fun _ _ _ _ => trivial

/-! ## create -/

/-- The answer of `create`: the workflow its key is bound to, with its request. -/
theorem created_ok {r : CreateRequest} (ha : r.Admitted env) (hk : Known env w s)
    (ho : w.ownerId = r.principal.subject) (hr : w.request = normalizeRequest r.request)
    (hl : w.requestedLocale = env.lower r.requestedLocale)
    (hb : s.bound r.principal.subject r.idempotencyKey = some w.workflowId)
    (hrely : Relies env tid s s') : Created env r (.ok w) s' :=
  ⟨ha, ho, hr, hl, hrely.evolve.bound hb, hk.rely hrely⟩

theorem verified_createCall (hf : Function.Injective env.idFactory) (r : CreateRequest) :
    Verified env tid (.create r) born (WorkflowService.create env r) [] s := by
  unfold WorkflowService.create
  by_cases hroles : r.principal.roles ∩ {.requester, .administrator} = ∅
  · rw [if_pos hroles]
    exact verified_audit fun _ _ _ _ hadm => absurd hroles hadm.role
  rw [if_neg hroles]
  dsimp only
  by_cases hoverlay : r.overlayIds.toFinset ≠ {"common-us-baseline"}
  · rw [if_pos hoverlay]
    exact fun _ _ hadm => absurd hadm.overlay hoverlay
  rw [if_neg hoverlay]
  rw [not_not] at hoverlay
  refine verified_classify fun s1 hr1 => verified_evaluate fun s2 hr2 =>
    verified_audit fun s3 hr3 => ?_
  generalize hctx : r.intakeContext
    (env.classifier (normalizeRequest r.request) r.declaredCategories) = context
  by_cases hallowed : (env.policy context).executionAllowed = false
  · rw [if_pos hallowed]
    obtain ⟨e, he⟩ := denyProcessing_eq (env.policy context)
    rw [he]
    intro _ _ hadm
    have := hadm.policy
    rw [hctx, hallowed] at this
    cases this
  rw [if_neg hallowed]
  rw [Bool.not_eq_false] at hallowed
  subst hctx
  have hadm : r.Admitted env := ⟨hroles, hoverlay, hallowed⟩
  refine verified_idFactory hf fun s4 n hr4 hi hn => verified_utcNow fun s5 hr5 => ?_
  obtain ⟨hi, hn⟩ := hr5.own n hi hn
  refine verified_create hf rfl hadm hi hn rfl ?_ ?_ ?_
  · intro s6 id existing hr6 hb hst hdiff _
    exact ⟨rfl, id, existing, hb, hst, hdiff⟩
  · intro s6 id existing hr6 hb hst hsame
    obtain ⟨rfl, hk⟩ := Known.of_stored hr6.inv hst
    obtain ⟨v, hv, ho⟩ := hr6.inv.bound hb
    rw [hst] at hv
    cases hv
    exact verified_audit fun s7 hr7 s8 hr8 =>
      created_ok hadm hk ho hsame.1 hsame.2 hb (hr7.trans hr8)
  · intro s6 hr6 hc6
    have hk : Known env (r.received env (env.idFactory n) s5.utc)
        (s6.insert (r.received env (env.idFactory n) s5.utc) r.idempotencyKey) :=
      ⟨.receive hadm, _, insert_stored_self s6 _ _, .refl⟩
    exact verified_audit fun s7 hr7 s8 hr8 =>
      created_ok hadm hk rfl rfl rfl (by rw [insert_bound]; exact if_pos rfl) (hr7.trans hr8)

/-! ## decide_approval -/

/-- A task of an approved workflow, as the service makes it. -/
theorem tasked_create {proposal : ToolActionProposal} {approval : ApprovalDecision}
    (hp : w.actionProposal = some proposal) (ha : w.approvalDecision = some approval)
    (hd : approval.decision = .approved) :
    Tasked w (createExecutionTask w.workflowId proposal.proposalDigest) :=
  ⟨proposal, approval, hp, ha, hd, rfl⟩

theorem verified_replay {principal : Principal} {decision : Decision}
    {reason key correlationId : String} {existing : ApprovalDecision} (hk : Known env w s)
    (hset : Settled principal w.workflowId born s) (hread : reads log = [w])
    (hmay : principal.MayDecide w) (ha : w.approvalDecision = some existing) :
    Verified env tid (.decideApproval principal w.workflowId decision reason key correlationId)
      born (WorkflowService.replayDecision w existing decision key) log s := by
  unfold WorkflowService.replayDecision
  by_cases hkey : existing.idempotencyKey ≠ key
  · rw [if_pos hkey]
    exact fun s' hr => hset.rely hr
  rw [if_neg hkey]
  by_cases hdec : existing.decision ≠ decision
  · rw [if_pos hdec]
    exact fun s' hr => hset.rely hr
  rw [if_neg hdec]
  rw [not_not] at hkey hdec
  -- in every branch left, the answer is the workflow as it was read
  have hdone : ∀ log' s', reads log' = [w] → Relies env tid s s' →
      (decision = .approved → taskIdOf w.workflowId ∈ s'.taskQueue.order) →
      Post env (.decideApproval principal w.workflowId decision reason key correlationId) born
        log' (.ok w) s' := by
    intro log' s' hread' hr hmem
    exact ⟨w, existing, hread', hmay, rfl, hk.rely hr, ha, hdec, hkey,
      (fun hn => by rw [hn] at ha; cases ha), .inr rfl, hmem⟩
  obtain ⟨_, _, proposal, _, _, _, _, hp, -⟩ := hk.life.decided ha
  rw [hp]
  cases decision with
  | approved =>
    simp only [WorkflowService.enqueueApproved, Program.bind_assoc, pure_eq, done_bind]
    refine verified_enqueue hk rfl (tasked_create hp ha hdec) ?_ fun s' t hr hmem s'' hr' => ?_
    · exact fun s' e hr => hset.rely hr
    · refine hdone _ s'' ?_ (hr.trans hr') fun _ => hr'.evolve.order.subset hmem
      simp [hread]
  | rejected => exact fun s' hr => hdone _ s' hread hr nofun

/-- The end of a first decision, once `w'` is stored with it. -/
theorem verified_decided {principal : Principal} {proposal : ToolActionProposal}
    {decision : Decision} {reason key correlationId : String} {now : Datetime}
    (hk : Known env w' s) (hid : w'.workflowId = w.workflowId) (hread : reads log = [w])
    (hmay : principal.MayDecide w) (hn : w.approvalDecision = none)
    (hp : w'.actionProposal = some proposal)
    (ha : w'.approvalDecision = some
      (createApprovalDecision proposal principal.subject decision reason key now))
    (hrank : 1 < w'.status.rank) (hw' : s.stored w'.workflowId = some w') :
    Verified env tid (.decideApproval principal w.workflowId decision reason key correlationId)
      born (do
        WorkflowService.enqueueApproved decision w proposal
        auditRecord "workflow.approval" decision.value principal.subject w.workflowId correlationId
        return w') log s := by
  have hset : Settled principal w.workflowId born s :=
    fun _ _ _ _ => ⟨w', by rw [← hid]; exact hw', hrank⟩
  -- the stored workflow is the answer, once its task is enqueued
  have hdone : ∀ log' s' s'', reads log' = [w] → Relies env tid s s' → Relies env tid s' s'' →
      (decision = .approved → taskIdOf w.workflowId ∈ s'.taskQueue.order) →
      Post env (.decideApproval principal w.workflowId decision reason key correlationId) born
        log' (.ok w') s'' := by
    intro log' s' s'' hread' hr hr' hmem
    exact ⟨w, _, hread', hmay, hid, hk.rely (hr.trans hr'), ha, rfl, rfl, fun _ => ⟨rfl, rfl⟩,
      .inl hn, fun hd => hr'.evolve.order.subset (hmem hd)⟩
  cases decision with
  | approved =>
    simp only [WorkflowService.enqueueApproved, Program.bind_assoc, pure_eq, done_bind]
    refine verified_enqueue hk hid.symm ?_ (fun s' e hr => hset.rely hr) fun s' t hr hmem => ?_
    · rw [← hid]
      exact tasked_create hp ha rfl
    · exact verified_audit fun s3 hr3 s4 hr4 =>
        hdone _ s' s4 (by simp [hread]) hr (hr3.trans hr4) fun _ => hmem
  | rejected =>
    exact verified_audit fun s3 hr3 s4 hr4 => hdone _ s3 s4 (by simp [hread]) hr3 hr4 nofun

theorem verified_firstDecision {principal : Principal} {proposal : ToolActionProposal}
    {decision : Decision} {reason key correlationId : String} (hk : Known env w s)
    (hread : reads log = [w]) (hmay : principal.MayDecide w) (hn : w.approvalDecision = none)
    (hp : w.actionProposal = some proposal) (hs : w.status = .awaitingApproval) :
    Verified env tid (.decideApproval principal w.workflowId decision reason key correlationId)
      born (WorkflowService.firstDecision principal w.workflowId w proposal decision reason key
        correlationId) log s := by
  -- a stored value other than `w`, which is pending, is past the decision
  have hstale : ∀ s' w₁, s'.stored w.workflowId = some w₁ → Later env w w₁ → w₁ ≠ w →
      Settled principal w.workflowId born s' := by
    intro s' w₁ hw₁ hl hne _ _ _ _
    refine ⟨w₁, hw₁, ?_⟩
    rcases hl.eq_or_lt (·.status.rank) Advance.rank_lt with rfl | hlt
    · exact absurd rfl hne
    · rw [hs] at hlt
      exact hlt
  have hopen : w.status ≠ .completed := by rw [hs]; decide
  refine verified_now fun s1 hr1 => ?_
  by_cases hlate : s1.now > proposal.expiresAt
  · rw [if_pos hlate]
    have ha : Advance env
        (.decideApproval principal w.workflowId decision reason key correlationId) w
        (w.expire s1.now) := .expireProposal hmay hs hn hp hlate
    refine verified_update (hk.rely hr1) (by simp [hread]) ha (fun r => hk.no_ticket hopen rfl r)
      ?_ ?_
    · exact fun s' w₁ _ hw₁ hl hne => hstale s' w₁ hw₁ hl hne
    · intro s2 hr2 hc2 hw
      refine verified_audit fun s3 hr3 s4 hr4 => ?_
      have hset : Settled principal w.workflowId born (s2.put (w.expire s1.now)) :=
        fun _ _ _ _ => ⟨_, put_stored_self s2 (w.expire s1.now),
          (by decide : 1 < WorkflowState.expired.rank)⟩
      exact (hset.rely hr3).rely hr4
  rw [if_neg hlate]
  have ha : Advance env
      (.decideApproval principal w.workflowId decision reason key correlationId) w
      (w.recordApproval
        (createApprovalDecision proposal principal.subject decision reason key s1.now) s1.now) :=
    .decide hmay hs hn hp (not_lt.mp hlate)
  refine verified_update (hk.rely hr1) (by simp [hread]) ha (fun r => hk.no_ticket hopen rfl r)
      ?_ ?_
  · exact fun s' w₁ _ hw₁ hl hne => hstale s' w₁ hw₁ hl hne
  · intro s2 hr2 hc2 hw
    refine verified_decided ⟨hk.life.advance ha, _, put_stored_self s2 _, .refl⟩ rfl
      (by simp [hread]) hmay hn hp rfl ?_ (put_stored_self s2 _)
    have := ha.rank_lt
    rw [hs] at this
    exact this

theorem verified_decideApproval (hc : Consistent env born) (principal : Principal)
    (workflowId : String) (decision : Decision) (reason key correlationId : String) :
    Verified env tid
      (.decideApproval principal workflowId decision reason key correlationId) born
      (WorkflowService.decideApproval principal workflowId decision reason key correlationId) []
      born := by
  unfold WorkflowService.decideApproval
  by_cases hroles : principal.roles ∩ {.reviewer, .administrator} = ∅
  · rw [if_pos hroles]
    exact verified_audit fun _ _ _ _ _ _ hm => absurd hroles hm.1
  rw [if_neg hroles]
  refine verified_get (fun s1 hr1 hnone => ?_) fun s1 w hr1 hw => ?_
  · intro s2 hr2 w₀ hw₀
    obtain ⟨w, hw, -⟩ := (hr1.evolve).stored hw₀
    exact absurd (hnone.symm.trans hw) nofun
  obtain ⟨rfl, hk⟩ := Known.of_stored hr1.inv hw
  dsimp only
  by_cases howner : w.ownerId = principal.subject
  · rw [if_pos howner]
    refine verified_audit fun s2 _ s3 _ w₀ hw₀ hm => ?_
    obtain ⟨w', hw', hl⟩ := hr1.evolve.stored hw₀
    rw [hw] at hw'
    cases hw'
    exact absurd ((hl.grows (hc.stored hw₀).2.1).ownerId.symm.trans howner) hm.2
  rw [if_neg howner]
  have hmay : principal.MayDecide w := ⟨hroles, howner⟩
  cases ha : w.approvalDecision with
  | some existing =>
    have hs : w.status ≠ .awaitingApproval := fun hs =>
      absurd ((hk.life.pending hs).1.symm.trans ha) nofun
    exact verified_replay hk (.of_stored hr1 hw hs) (by simp) hmay ha
  | none =>
    cases hp : w.actionProposal with
    | none =>
      have hs : w.status ≠ .awaitingApproval := fun hs => by
        obtain ⟨-, _, hp'⟩ := hk.life.pending hs
        exact absurd (hp.symm.trans hp') nofun
      exact fun s2 hr2 => Settled.rely (.of_stored hr1 hw hs) hr2
    | some proposal =>
      dsimp only
      by_cases hs : w.status ≠ .awaitingApproval
      · rw [if_pos hs]
        exact fun s2 hr2 => Settled.rely (.of_stored hr1 hw hs) hr2
      · rw [if_neg hs]
        exact verified_firstDecision hk (by simp) hmay ha hp (not_not.mp hs)

/-! ## process_next_task -/

section Delivery
variable {principal : Principal} {correlationId : String} {task : ExecutionTask}
  {proposal : ToolActionProposal} {approval : ApprovalDecision} {now : Datetime} {w₀ : Workflow}

/-- From the executor on, for a workflow that is executing. -/
theorem verified_finishExecution (hmay : principal.MayProcess) (hread : reads log = [w₀])
    (h₀ : Lifecycle env w₀) (hl₀ : Later env w₀ w) (hclear : Cleared env log w₀ now)
    (hk : Known env w s) (hmem : w ∈ reads log ++ writes log) (hs : w.status = .executing)
    (ht : Tasked w task) (hp : w.actionProposal = some proposal) :
    Verified env tid (.processNextTask principal correlationId) born
      (WorkflowService.finishExecution task principal.subject correlationId proposal now w)
      log s := by
  refine verified_execute rfl hmay hread h₀ hl₀ hclear hk hs ht hp fun s1 r hr1 hrec hd hkey => ?_
  have hk1 := hk.rely hr1
  have he := hk.life.evidence
  rw [Evidence, hs] at he
  obtain ⟨-, ⟨_, _, _, _, _, -, -, -, ha⟩, -⟩ := he
  cases hcomp : w.completeExecution r now with
  | error e =>
    rw [Workflow.completeExecution, ha] at hcomp
    cases hcomp
  | ok w' =>
    have hadv : Advance env (.processNextTask principal correlationId) w w' :=
      .completeExecution hmay hs hp hd (hkey.trans (ht.idempotencyKey hp)) hcomp
    have hid := (hk.life.grows hadv).workflowId
    obtain ⟨_, -, hw'⟩ := completeExecution_ok hcomp
    have hstatus : w'.status = .completed := by rw [hw']
    refine verified_update hk1 ?_ hadv ?_ (fun _ _ _ _ _ _ => trivial) fun s2 hr2 hc2 hw => ?_
    · simpa using hmem
    · intro r' hr'
      rw [hw'] at hr'
      cases hr'
      exact hrec
    · have hk2 : Known env w' (s2.put w') :=
        ⟨hk.life.advance hadv, w', put_stored_self s2 w', .refl⟩
      have htask : task.taskId = taskIdOf w'.workflowId := by rw [ht.taskId, hid]
      exact verified_complete htask hk2 (.inl hstatus) fun _ _ =>
        verified_audit fun _ _ _ _ => trivial

/-- From the checks of an approved workflow on. -/
theorem verified_startExecution (hmay : principal.MayProcess) (hread : reads log = [w])
    (hquiet : verdicts log = []) (hk : Known env w s) (hs : w.status = .approved)
    (ht : Tasked w task) (hp : w.actionProposal = some proposal)
    (ha : w.approvalDecision = some approval) :
    Verified env tid (.processNextTask principal correlationId) born
      (WorkflowService.startExecution task principal.subject correlationId w approval now >>=
        WorkflowService.finishExecution task principal.subject correlationId proposal now)
      log s := by
  have hopen : w.status ≠ .completed := by rw [hs]; decide
  unfold WorkflowService.startExecution
  by_cases hlate : now > approval.expiresAt
  · rw [if_pos hlate]
    simp only [Program.bind_assoc]
    have hadv : Advance env (.processNextTask principal correlationId) w (w.expire now) :=
      .expireApproval hmay hs ha hlate
    refine verified_update hk (by simp [hread]) hadv (fun r => hk.no_ticket hopen rfl r)
      (fun _ _ _ _ _ _ => trivial) fun s1 hr1 hc1 hw => ?_
    have hk1 : Known env (w.expire now) (s1.put (w.expire now)) :=
      ⟨hk.life.advance hadv, _, put_stored_self s1 _, .refl⟩
    have htask : task.taskId = taskIdOf (w.expire now).workflowId := ht.taskId
    exact verified_complete htask hk1 (.inr rfl) fun _ _ => verified_audit fun _ _ _ _ => trivial
  rw [if_neg hlate]
  simp only [Program.bind_assoc]
  refine verified_evaluate fun s1 hr1 => verified_audit fun s2 hr2 => ?_
  rw [ite_bind]
  by_cases hallowed : (env.policy (executionContext w.processingContext)).executionAllowed = false
  · rw [if_pos hallowed]
    obtain ⟨e, he⟩ := denyProcessing_eq (env.policy (executionContext w.processingContext))
    rw [he]
    exact fun _ _ => trivial
  rw [if_neg hallowed, Bool.not_eq_false] at *
  have hadv : Advance env (.processNextTask principal correlationId) w
      (w.beginExecution (env.policy (executionContext w.processingContext))
        (executionContext w.processingContext) now) :=
    .beginExecution hmay hs ha (not_lt.mp hlate) hallowed
  refine verified_update (hk.rely (hr1.trans hr2)) (by simp [hread]) hadv
    (fun r => hk.no_ticket hopen rfl r) (fun _ _ _ _ _ _ => trivial) fun s3 hr3 hc3 hw => ?_
  have hg := hk.life.grows hadv
  refine verified_finishExecution hmay (by simp [hread]) hk.life (.single ⟨_, hadv⟩) ?_
    ⟨hk.life.advance hadv, _, put_stored_self s3 _, .refl⟩ (by simp) rfl (ht.mono hg)
    (hg.actionProposal _ hp)
  exact .inl ⟨hs, ⟨approval, ha, not_lt.mp hlate⟩, hallowed, by simp [hquiet]⟩

theorem verified_deliverTask (hmay : principal.MayProcess) (hread : reads log = [w])
    (hquiet : verdicts log = []) (hk : Known env w s) (ht : Tasked w task) :
    Verified env tid (.processNextTask principal correlationId) born
      (WorkflowService.deliverTask task principal.subject correlationId w) log s := by
  unfold WorkflowService.deliverTask
  obtain ⟨proposal, approval, hp, ha, -, -⟩ := id ht
  rw [hp, ha]
  dsimp only
  by_cases hd : proposal.proposalDigest ≠ task.proposalDigest ∨
      approval.proposalDigest ≠ task.proposalDigest
  · rw [if_pos hd]
    exact fun _ _ => trivial
  rw [if_neg hd]
  refine verified_now fun s1 hr1 => ?_
  by_cases hs : w.status = .approved
  · rw [if_pos hs]
    exact verified_startExecution hmay (by simp [hread]) (by simp [hquiet]) (hk.rely hr1) hs ht hp
      ha
  rw [if_neg hs]
  by_cases hx : w.status ≠ .executing
  · rw [if_pos hx]
    exact fun _ _ => trivial
  rw [if_neg hx]
  rw [not_not] at hx
  exact verified_finishExecution hmay (by simp [hread]) hk.life .refl (.inr ⟨hx, by simp [hquiet]⟩)
    (hk.rely hr1) (by simp [hread]) hx ht hp

theorem verified_executeTask (hmay : principal.MayProcess) (hread : reads log = [])
    (hquiet : verdicts log = []) (hw₁ : s.stored task.workflowId = some w) (ht : Tasked w task)
    (hc : Consistent env s) :
    Verified env tid (.processNextTask principal correlationId) born
      (WorkflowService.executeTask task principal.subject correlationId) log s := by
  refine verified_get (fun _ _ _ _ _ => trivial) fun s1 w' hr1 hw' => ?_
  obtain ⟨hid, hk⟩ := Known.of_stored hr1.inv hw'
  obtain ⟨v, hv, hl⟩ := hr1.evolve.stored hw₁
  rw [hw'] at hv
  cases hv
  have ht' := ht.mono (hl.grows (hc.stored hw₁).2.1)
  dsimp only
  split
  · rename_i hs _
    split
    · exact fun _ _ => trivial
    · exact verified_complete ht'.taskId hk (.inl hs) fun _ _ _ _ => trivial
  · exact verified_deliverTask hmay (by simp [hread]) (by simp [hquiet]) hk ht'

theorem verified_processNextTask (principal : Principal) (correlationId : String) :
    Verified env tid (.processNextTask principal correlationId) born
      (WorkflowService.processNextTask principal correlationId) [] s := by
  unfold WorkflowService.processNextTask
  by_cases hroles : principal.roles ∩ {.operator, .administrator} = ∅
  · rw [if_pos hroles]
    exact verified_audit fun _ _ _ _ => trivial
  rw [if_neg hroles]
  refine verified_claimNext (fun _ _ _ _ => trivial) fun s1 t w hr1 hw ht => ?_
  exact verified_executeTask hroles (by simp) (by simp) hw ht hr1.inv

end Delivery

/-- **The service is disciplined**: with fresh ids, every call keeps the
discipline and its promises, whatever the others do in between. -/
theorem disciplined (hf : Function.Injective env.idFactory) :
    (system env).Disciplined (discipline env) (promises env) where
  body tid call s hc := by
    cases call with
    | create r => exact verified_createCall hf r
    | get principal workflowId correlationId => exact verified_getCall _ _ _
    | plan principal workflowId correlationId => exact verified_plan _ _ _
    | decideApproval principal workflowId decision reason key correlationId =>
      exact verified_decideApproval hc _ _ _ _ _ _
    | processNextTask principal correlationId => exact verified_processNextTask _ _
  tick t tid s hc := Quiet.rely ⟨rfl, rfl, rfl, List.prefix_rfl, List.prefix_rfl⟩ hc

end AgenticDelivery.Api
