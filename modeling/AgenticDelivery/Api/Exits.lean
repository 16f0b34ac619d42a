import AgenticDelivery.Api.ApprovedWork
import AgenticDelivery.Api.Calls

/-! # A call ends in one of its ways

One lemma for each method: its program, peeled operation by operation, ends in
an `Exit`. -/
namespace AgenticDelivery.Api
open AgenticDelivery.Atomic AgenticDelivery.Data AgenticDelivery.Governance AgenticDelivery.Runtime
open Service Program

variable {env : Environment} {tid : Nat} {clock : Nat → Datetime × Datetime} {s s' : State}
  {call : Call} {w w' : Workflow} {p : Principal} {id correlationId : String}

/-- The call has ended in one of its ways. -/
def Ends (env : Environment) (clock : Nat → Datetime × Datetime) (s : State) (call : Call)
    (r : Except Failure Workflow × State) : Prop :=
  ∃ left outcomes, Exit env clock s call r.1 left outcomes ∧ SameStores left r.2 ∧
    Audited call s.audit r.2.audit outcomes

/-- The rest `p` of the call, from `s'` and what is left of the clock, ends it in one
of its ways. -/
def Goes (env : Environment) (tid : Nat) (clock : Nat → Datetime × Datetime) (s : State)
    (call : Call) (p : Service Workflow) (s' : State) (left : Nat → Datetime × Datetime) : Prop :=
  let r := p.run (timed (exec env tid) (system env).tick) (s', left)
  Ends env clock s call (r.1, r.2.1)

/-! ## Audit events of a call -/

theorem Audited.nil (call : Call) (audit : List AuditEvent) : Audited call audit audit [] :=
  ⟨[], (List.append_nil audit).symm, rfl, fun _ he => by cases he⟩

/-- One more event of the call. -/
theorem Audited.snoc {audit audit' : List AuditEvent} {outcomes : List String}
    (h : Audited call audit audit' outcomes) (now : Datetime) (action outcome : String)
    (resourceId : Option String) :
    Audited call audit (recordAudit audit' now action outcome call.principal.subject resourceId
      call.correlationId) (outcomes ++ [outcome]) := by
  obtain ⟨events, rfl, ho, hall⟩ := h
  refine ⟨events ++ [_], by rw [recordAudit, List.append_assoc], ?_, ?_⟩
  · rw [List.map_append, ho]
    rfl
  · intro e hm
    rcases List.mem_append.mp hm with hm | hm
    · exact hall e hm
    · rw [List.mem_singleton.mp hm]
      exact ⟨rfl, rfl⟩

/-! ## Operations of a call that runs alone -/

/-- What a clock shows from the next operation on. -/
abbrev later (left : Nat → Datetime × Datetime) : Nat → Datetime × Datetime :=
  fun n => left (n + 1)

/-- The state when the clock has moved. -/
def State.at_ (s : State) (t : Datetime × Datetime) : State := { s with now := t.1, utc := t.2 }

section Operations
variable {left : Nat → Datetime × Datetime}

theorem Goes.get {f : Option Workflow → Service Workflow}
    (h : Goes env tid clock s call (f (s'.stored id)) (s'.at_ (left 0)) (later left)) :
    Goes env tid clock s call (repositoryGet id >>= f) s' left := h

theorem Goes.audit {action outcome correlationId : String} {subject resourceId : Option String}
    {f : Unit → Service Workflow}
    (h : Goes env tid clock s call (f ()) ((s'.at_ (left 0)).audited action outcome subject
      resourceId correlationId) (later left)) :
    Goes env tid clock s call (auditRecord action outcome subject resourceId correlationId >>= f)
      s' left := h

theorem Goes.evaluate {context : ProcessingContext} {f : PolicyDecision → Service Workflow}
    (h : Goes env tid clock s call (f (env.policy context)) (s'.at_ (left 0)) (later left)) :
    Goes env tid clock s call (evaluate context >>= f) s' left := h

theorem Goes.classify {text : String} {declared : Option (Finset DataCategory)}
    {f : DataProfile → Service Workflow}
    (h : Goes env tid clock s call (f (env.classifier text declared)) (s'.at_ (left 0))
      (later left)) :
    Goes env tid clock s call (classify text declared >>= f) s' left := h

theorem Goes.now {f : Datetime → Service Workflow}
    (h : Goes env tid clock s call (f (left 0).1) (s'.at_ (left 0)) (later left)) :
    Goes env tid clock s call (nowFactory >>= f) s' left := h

theorem Goes.utcNow {f : Datetime → Service Workflow}
    (h : Goes env tid clock s call (f (left 0).2) (s'.at_ (left 0)) (later left)) :
    Goes env tid clock s call (utcNow >>= f) s' left := h

theorem Goes.runtimePlan {planningInput : PlanningInput} {n : Nat}
    {f : Except RuntimeError PlanningResult → Service Workflow} (hn : s'.runtimeCalls = n)
    (h : Goes env tid clock s call (f (env.runtime n planningInput))
      { s'.at_ (left 0) with runtimeCalls := n + 1 } (later left)) :
    Goes env tid clock s call (runtimePlan planningInput >>= f) s' left := by
  subst hn
  exact h

theorem Goes.idFactory {n : Nat} {f : String → Service Workflow} (hn : s'.issued.length = n)
    (h : Goes env tid clock s call (f (env.idFactory n))
      { s'.at_ (left 0) with issued := s'.issued ++ [tid] } (later left)) :
    Goes env tid clock s call (idFactory >>= f) s' left := by
  subst hn
  exact h

theorem Goes.complete {taskId : String} {f : Unit → Service Workflow}
    (h : Goes env tid clock s call (f ())
      { s'.at_ (left 0) with taskQueue := s'.taskQueue.complete taskId } (later left)) :
    Goes env tid clock s call (complete taskId >>= f) s' left := h

/-- An operation whose reply is a result, in front of a program. -/
theorem Goes.perform {op : Op} {r : Reply op} {s₁ : State} {α : Type}
    {g : Reply op → Service α} {value : α} (he : exec env tid op (s'.at_ (left 0)) = (r, s₁))
    (hg : g r = .done value) {f : α → Service Workflow}
    (h : Goes env tid clock s call (f value) s₁ (later left)) :
    Goes env tid clock s call (port op >>= g >>= f) s' left := by
  have ht : timed (exec env tid) (system env).tick op (s', left) = (r, s₁, later left) := by
    change ((exec env tid op (s'.at_ (left 0))).1, (exec env tid op (s'.at_ (left 0))).2, _) = _
    rw [he]
  rw [Goes, port, run_perform ht hg]
  exact h

theorem Goes.update {f : Workflow → Service Workflow} (hw : s'.stored w'.workflowId = some w)
    (h : Goes env tid clock s call (f w') ((s'.at_ (left 0)).put w') (later left)) :
    Goes env tid clock s call (repositoryUpdate w' w.stateVersion >>= f) s' left := by
  rcases update_cases env tid (s'.at_ (left 0)) w' w.stateVersion with ⟨-, hv⟩ | ⟨_, -, -, he⟩
  · exact absurd rfl (hv w hw)
  · exact .perform (g := orRaise) he rfl h

/-- An operation whose reply is an error. -/
theorem Goes.fails {op : Op} {r : Reply op} {s₁ : State} {α : Type} {g : Reply op → Service α}
    {e : Failure} (he : exec env tid op (s'.at_ (left 0)) = (r, s₁)) (hg : g r = .raise e)
    {f : α → Service Workflow} (h : Ends env clock s call (.error e, s₁)) :
    Goes env tid clock s call (port op >>= g >>= f) s' left := by
  have hrun : ((port op >>= g >>= f).run (timed (exec env tid) (system env).tick) (s', left)) =
      (.error e, s₁, later left) := by
    change ((g (exec env tid op (s'.at_ (left 0))).1 >>= f).run _
      ((exec env tid op (s'.at_ (left 0))).2, later left)) = _
    rw [he, hg]
    rfl
  rw [Goes, hrun]
  exact h

theorem Consistent.quiet (hc : Consistent env s) (h : Quiet s s') : Consistent env s' := by
  have hk : (discipline env).Kept 0 s s' := h.kept hc
  exact hk.inv

theorem Goes.create {key : String} {f : Workflow → Service Workflow} (hc : Consistent env s')
    (hnew : s'.bound w.ownerId key = none →
      Goes env tid clock s call (f w) ((s'.at_ (left 0)).insert w key) (later left))
    (hold : ∀ id v, s'.bound w.ownerId key = some id → s'.stored id = some v → SameRequest v w →
      Goes env tid clock s call (f v) (s'.at_ (left 0)) (later left))
    (hother : ∀ id v, s'.bound w.ownerId key = some id → s'.stored id = some v →
      ¬SameRequest v w → Ends env clock s call (.error keyConflict, s'.at_ (left 0))) :
    Goes env tid clock s call (repositoryCreate w key >>= f) s' left := by
  have hc' : Consistent env (s'.at_ (left 0)) :=
    hc.quiet ⟨rfl, rfl, rfl, List.prefix_rfl, List.prefix_rfl⟩
  rcases create_cases hc' tid w key with ⟨hb, he⟩ | ⟨id, v, hb, hv, ⟨hs, he⟩ | ⟨hs, he⟩⟩
  · exact .perform (g := orRaise) he rfl (hnew hb)
  · exact .perform (g := orRaise) he rfl (hold id v hb hv hs)
  · exact .fails (g := orRaise) he rfl (hother id v hb hv hs)

theorem Goes.enqueue {task : ExecutionTask} {f : ExecutionTask → Service Workflow}
    (hmis : s'.Misbound task → Ends env clock s call (.error misboundTask, s'.at_ (left 0)))
    (hclear : ¬s'.Misbound task → ∀ t,
      Goes env tid clock s call (f t) ((s'.at_ (left 0)).queueOn .approved task) (later left)) :
    Goes env tid clock s call (enqueue task >>= f) s' left := by
  have hx : exec env tid (.enqueue task) (s'.at_ (left 0)) =
      ((s'.taskQueue.enqueue task).1, (s'.at_ (left 0)).queueOn .approved task) := rfl
  by_cases hm : s'.Misbound task
  · have he := enqueue_misbound hm
    refine .fails (g := orRaise) hx (by rw [he]; rfl) ?_
    rw [show (s'.at_ (left 0)).queueOn .approved task = s'.at_ (left 0) from
      queueOn_misbound (s := s'.at_ (left 0)) hm .approved]
    exact hmis hm
  · obtain ⟨t, he⟩ := enqueue_clear hm
    exact .perform (g := orRaise) hx (by rw [he]; rfl) (hclear hm t)

theorem Goes.claimNext {f : Option ExecutionTask → Service Workflow} (hc : Consistent env s')
    (hnone : s'.taskQueue.pending = [] →
      Goes env tid clock s call (f none) (s'.at_ (left 0)) (later left))
    (hsome : ∀ task t, s'.taskQueue.pending.head? = some task.taskId →
      s'.taskQueue.tasks.get? task.taskId = some t →
      task = { t with deliveryAttempt := t.deliveryAttempt + 1 } →
      Goes env tid clock s call (f (some task)) ((s'.at_ (left 0)).claim task) (later left)) :
    Goes env tid clock s call (claimNext >>= f) s' left := by
  have hc' : Consistent env (s'.at_ (left 0)) :=
    hc.quiet ⟨rfl, rfl, rfl, List.prefix_rfl, List.prefix_rfl⟩
  rcases claimNext_cases hc' tid with ⟨hp, he⟩ | ⟨k, t, task, hh, ht, htask, he⟩
  · exact .perform (g := orRaise) he rfl (hnone hp)
  · have hk : task.taskId = k := by rw [htask]; exact (hc.queued ht).1
    subst hk
    exact .perform (g := orRaise) he rfl (hsome task t hh ht htask)

end Operations

/-! ## The methods -/

theorem goes_get : Goes env tid clock s (.get p id correlationId)
    (WorkflowService.get p id correlationId) s clock := by
  have hidden : (∀ w, s.stored id = some w → ¬p.MayRead w) →
      Goes env tid clock s (.get p id correlationId)
        (WorkflowService.get.notFound p id correlationId) (s.at_ (clock 0)) (later clock) :=
    fun h => .audit ⟨_, _, .readHidden h, ⟨rfl, rfl, rfl⟩, (Audited.nil _ _).snoc ..⟩
  refine .get ?_
  cases hw : s.stored id with
  | none => exact hidden fun w h => by rw [hw] at h; cases h
  | some w =>
    dsimp only
    split
    · rename_i hno
      refine hidden fun v hv => ?_
      rw [hw] at hv
      cases hv
      exact fun hmay => hmay.elim hno.1 fun hm => hm hno.2
    · rename_i hmay
      rw [not_and_or, not_not] at hmay
      exact .audit ⟨_, _, .read hw hmay, ⟨rfl, rfl, rfl⟩, (Audited.nil _ _).snoc ..⟩

/-- Without a plan a workflow is as it was received. -/
theorem Lifecycle.received_of_unplanned (h : Lifecycle env w) (hn : w.planningResult = none) :
    w.status = .received := by
  have he := h.evidence
  rw [Evidence] at he
  split at he
  case h_1 hs => exact hs
  all_goals first
    | exact he.elim
    | obtain ⟨⟨_, _, hp, -⟩, -⟩ := he
      rw [hn] at hp
      cases hp

theorem denyProcessing_refusal (decision : PolicyDecision) :
    denyProcessing decision = .raise (refusal decision) := by
  unfold denyProcessing refusal
  cases decision.reasons.head? <;> rfl

theorem goes_plan (hc : Consistent env s) : Goes env tid clock s (.plan p id correlationId)
    (WorkflowService.plan env p id correlationId) s clock := by
  have hidden : (∀ w, s.stored id = some w → ¬p.MayPlan w) →
      Goes env tid clock s (.plan p id correlationId)
        (WorkflowService.plan.notFound p id correlationId) (s.at_ (clock 0)) (later clock) :=
    fun h => .audit ⟨_, _, .planHidden h, ⟨rfl, rfl, rfl⟩, (Audited.nil _ _).snoc ..⟩
  refine .get ?_
  cases hw : s.stored id with
  | none => exact hidden fun w h => by rw [hw] at h; cases h
  | some w =>
  dsimp only
  by_cases hauth : w.ownerId ≠ p.subject ∧ .administrator ∉ p.roles
  · rw [if_pos hauth]
    refine hidden fun v hv => ?_
    rw [hw] at hv
    cases hv
    exact fun hmay => hmay.elim hauth.1 hauth.2
  rw [if_neg hauth]
  have hmay : p.MayPlan w := by
    rw [not_and_or, not_not, not_not] at hauth
    exact hauth
  by_cases hplanned : w.planningResult ≠ none
  · rw [if_pos hplanned]
    exact ⟨_, _, .planReplayed hw hmay hplanned, ⟨rfl, rfl, rfl⟩, .nil _ _⟩
  rw [if_neg hplanned]
  rw [not_not] at hplanned
  have hopen : Unplanned s p id w := ⟨hw, hmay, hplanned⟩
  obtain ⟨rfl, hl, -⟩ := hc.stored hw
  rw [if_neg (not_not.mpr (hl.received_of_unplanned hplanned))]
  refine .evaluate (.audit ?_)
  by_cases hallowed : (env.policy (planningContext w.processingContext)).executionAllowed = false
  · rw [if_pos hallowed, denyProcessing_refusal]
    exact ⟨_, _, .planningRefused hopen hallowed, ⟨rfl, rfl, rfl⟩, (Audited.nil _ _).snoc ..⟩
  rw [if_neg hallowed]
  rw [Bool.not_eq_false] at hallowed
  refine .runtimePlan (n := s.runtimeCalls) rfl ?_
  cases hplan : env.runtime s.runtimeCalls (WorkflowService.planningInput w correlationId) with
  | error e =>
    cases e with
    | promptInjectionBlocked message =>
      exact .audit ⟨_, _, .injectionRejected hopen hallowed hplan, ⟨rfl, rfl, rfl⟩,
        ((Audited.nil _ _).snoc ..).snoc ..⟩
    | evaluationGateBlocked result =>
      exact .audit ⟨_, _, .gateRejected hopen hallowed hplan, ⟨rfl, rfl, rfl⟩,
        ((Audited.nil _ _).snoc ..).snoc ..⟩
    | other message =>
      exact ⟨_, _, .runtimeFailed hopen hallowed hplan, ⟨rfl, rfl, rfl⟩, (Audited.nil _ _).snoc ..⟩
  | ok result =>
    exact .now (.utcNow (.update hw (.audit ⟨_, _, .planned hopen hallowed hplan rfl,
      ⟨rfl, rfl, rfl⟩, ((Audited.nil _ _).snoc ..).snoc ..⟩)))

theorem goes_create (hc : Consistent env s) {r : CreateRequest} :
    Goes env tid clock s (.create r) (WorkflowService.create env r) s clock := by
  unfold WorkflowService.create
  by_cases hroles : r.principal.roles ∩ {.requester, .administrator} = ∅
  · rw [if_pos hroles]
    exact .audit ⟨_, _, .createDenied hroles, ⟨rfl, rfl, rfl⟩, (Audited.nil _ _).snoc ..⟩
  rw [if_neg hroles]
  dsimp only
  by_cases hoverlay : r.overlayIds.toFinset ≠ {"common-us-baseline"}
  · rw [if_pos hoverlay]
    exact ⟨_, _, .overlayUnavailable hroles hoverlay, ⟨rfl, rfl, rfl⟩, .nil _ _⟩
  rw [if_neg hoverlay]
  rw [not_not] at hoverlay
  refine .classify (.evaluate (.audit ?_))
  by_cases hallowed : (r.decision env).executionAllowed = false
  · rw [if_pos (by exact hallowed), denyProcessing_refusal]
    exact ⟨_, _, .intakeRefused hroles hoverlay hallowed, ⟨rfl, rfl, rfl⟩,
      (Audited.nil _ _).snoc ..⟩
  rw [if_neg (by exact hallowed)]
  have hadm : r.Admitted env := ⟨hroles, hoverlay, eq_true_of_ne_false hallowed⟩
  refine .idFactory (n := s.issued.length) rfl (.utcNow (.create ?_ ?_ ?_ ?_))
  · exact hc.quiet ⟨rfl, rfl, rfl, List.prefix_append _ _, List.prefix_append _ _⟩
  · exact fun hb => .audit ⟨_, _, .created hadm hb, ⟨rfl, rfl, rfl⟩,
      ((Audited.nil _ _).snoc ..).snoc ..⟩
  · exact fun id v hb hv hs => .audit ⟨_, _, .createReplayed hadm hb hv hs, ⟨rfl, rfl, rfl⟩,
      ((Audited.nil _ _).snoc ..).snoc ..⟩
  · exact fun id v hb hv hs => ⟨_, _, .createConflict hadm hb hv hs, ⟨rfl, rfl, rfl⟩,
      (Audited.nil _ _).snoc ..⟩

/-- A replay of the decision, or another one. -/
theorem goes_replayDecision (hc : Consistent env s) {d : Decision} {reason key : String}
    {approval : ApprovalDecision} (hclosed : DecidedBefore s p id w approval) :
    Goes env tid clock s (.decideApproval p id d reason key correlationId)
      (WorkflowService.replayDecision w approval d key) (s.at_ (clock 0)) (later clock) := by
  unfold WorkflowService.replayDecision
  by_cases hkey : approval.idempotencyKey ≠ key
  · rw [if_pos hkey]
    exact ⟨_, _, .decidedByOther hclosed hkey, ⟨rfl, rfl, rfl⟩, .nil _ _⟩
  rw [if_neg hkey]
  rw [not_not] at hkey
  by_cases hd : approval.decision ≠ d
  · rw [if_pos hd]
    exact ⟨_, _, .decidedOtherwise hclosed hkey hd, ⟨rfl, rfl, rfl⟩, .nil _ _⟩
  rw [if_neg hd]
  rw [not_not] at hd
  have hl := (hc.stored hclosed.stored).2.1
  obtain ⟨_, _, proposal, _, _, _, _, hp, -⟩ := hl.decided hclosed.decided
  rw [hp]
  cases d with
  | rejected =>
    have hne : Decision.rejected ≠ .approved := by decide
    exact ⟨_, _, .decisionReplayed hclosed hkey hd hp hne.elim, ⟨rfl, rfl, rfl⟩, .nil _ _⟩
  | approved =>
    simp only [WorkflowService.enqueueApproved, Program.bind_assoc]
    exact .enqueue
      (fun hm => ⟨_, _, .replayMisbound hclosed hkey hd hp hm, ⟨rfl, rfl, rfl⟩, .nil _ _⟩)
      fun hm _ => ⟨_, _, .decisionReplayed hclosed hkey hd hp fun _ => hm, ⟨rfl, rfl, rfl⟩,
        .nil _ _⟩

theorem goes_firstDecision {d : Decision} {reason key : String} {proposal : ToolActionProposal}
    (hopen : Undecided s p id w proposal) (hid : w.workflowId = id) :
    Goes env tid clock s (.decideApproval p id d reason key correlationId)
      (WorkflowService.firstDecision p id w proposal d reason key correlationId) (s.at_ (clock 0))
      (later clock) := by
  subst hid
  refine .now ?_
  by_cases hlate : (clock 1).1 > proposal.expiresAt
  · rw [if_pos hlate]
    exact .update hopen.stored (.audit ⟨_, _, .proposalExpired hopen hlate, ⟨rfl, rfl, rfl⟩,
      (Audited.nil _ _).snoc ..⟩)
  rw [if_neg hlate]
  rw [not_lt] at hlate
  refine .update hopen.stored ?_
  cases d with
  | rejected =>
    have hne : Decision.rejected ≠ .approved := by decide
    exact .audit ⟨_, _, .decided hopen hlate hne.elim rfl, ⟨rfl, rfl, rfl⟩,
      (Audited.nil _ _).snoc ..⟩
  | approved =>
    simp only [WorkflowService.enqueueApproved, Program.bind_assoc]
    exact .enqueue
      (fun hm => ⟨_, _, .decidedMisbound hopen hlate hm rfl, ⟨rfl, rfl, rfl⟩, .nil _ _⟩)
      fun hm _ => .audit ⟨_, _, .decided hopen hlate (fun _ => hm) rfl, ⟨rfl, rfl, rfl⟩,
        (Audited.nil _ _).snoc ..⟩

theorem goes_decide (hc : Consistent env s) {d : Decision} {reason key : String} :
    Goes env tid clock s (.decideApproval p id d reason key correlationId)
      (WorkflowService.decideApproval p id d reason key correlationId) s clock := by
  unfold WorkflowService.decideApproval
  by_cases hroles : p.roles ∩ {.reviewer, .administrator} = ∅
  · rw [if_pos hroles]
    exact .audit ⟨_, _, .decideDenied hroles, ⟨rfl, rfl, rfl⟩, (Audited.nil _ _).snoc ..⟩
  rw [if_neg hroles]
  refine .get ?_
  cases hw : s.stored id with
  | none => exact ⟨_, _, .decideMissing hroles hw, ⟨rfl, rfl, rfl⟩, .nil _ _⟩
  | some w =>
  dsimp only
  by_cases hown : w.ownerId = p.subject
  · rw [if_pos hown]
    exact .audit ⟨_, _, .selfApproval hroles hw hown, ⟨rfl, rfl, rfl⟩, (Audited.nil _ _).snoc ..⟩
  rw [if_neg hown]
  have hmay : p.MayDecide w := ⟨hroles, hown⟩
  obtain ⟨hid, hl, -⟩ := hc.stored hw
  cases ha : w.approvalDecision with
  | some approval => exact goes_replayDecision hc ⟨hw, hmay, ha⟩
  | none =>
  dsimp only
  by_cases hs : w.status = .awaitingApproval
  · obtain ⟨-, proposal, hp⟩ := hl.pending hs
    rw [hp]
    dsimp only
    rw [if_neg (not_not.mpr hs)]
    exact goes_firstDecision ⟨hw, hmay, ha, hs, hp⟩ hid
  · have hend : Goes env tid clock s (.decideApproval p id d reason key correlationId)
        (fail .invalidWorkflowState "Only a pending proposal can be decided.") (s.at_ (clock 0))
        (later clock) := ⟨_, _, .notPending hw hmay ha hs, ⟨rfl, rfl, rfl⟩, .nil _ _⟩
    cases hp : w.actionProposal with
    | none => exact hend
    | some proposal =>
      dsimp only
      rw [if_pos hs]
      exact hend

/-- The end of a delivery: the ticket is made, and the workflow stored as completed. -/
theorem goes_finishExecution {task : ExecutionTask} {proposal : ToolActionProposal}
    {actor : String} {now : Datetime} {left : Nat → Datetime × Datetime}
    (hc : Consistent env s') (hw : s'.stored task.workflowId = some w) (ht : Tasked w task)
    (hp : w.actionProposal = some proposal) (hs : w.status = .executing)
    (hend : ∀ result w' s'', (s'.toolExecutor.execute task proposal now).1 = .ok result →
      w.completeExecution result now = .ok w' →
      SameStores (((s'.ticket task proposal now).put w').retire task) s'' →
      s''.audit = recordAudit s'.audit (later (later (later left)) 0).2 "task.process" "completed"
        actor w.workflowId correlationId →
      Ends env clock s call (.ok w', s'')) :
    Goes env tid clock s call
      (WorkflowService.finishExecution task actor correlationId proposal now w) s' left := by
  have hc' : Consistent env (s'.at_ (left 0)) :=
    hc.quiet ⟨rfl, rfl, rfl, List.prefix_rfl, List.prefix_rfl⟩
  obtain ⟨result, hx⟩ : ∃ r, (exec env tid (.execute task proposal now) (s'.at_ (left 0))).1 =
      .ok r := by
    rcases execute_cases hc' hw ht hp (.inl hs) tid now with ⟨r, -, -, he⟩ | ⟨-, -, he⟩ <;>
      exact ⟨_, by rw [he]⟩
  have he := (hc.stored hw).2.1.evidence
  rw [Evidence, hs] at he
  obtain ⟨-, ⟨_, _, _, _, _, -, -, -, ha⟩, -⟩ := he
  cases hcomp : w.completeExecution result now with
  | error e =>
    rw [Workflow.completeExecution, ha] at hcomp
    cases hcomp
  | ok w' =>
    obtain ⟨_, -, hw'⟩ := completeExecution_ok hcomp
    have hid : w'.workflowId = task.workflowId := by rw [hw', ht.workflowId]
    refine .perform (g := orRaise) (Prod.ext hx rfl) rfl ?_
    rw [hcomp, orRaise_ok, done_bind]
    refine .update (by rw [hid]; exact hw) (.complete (.audit ?_))
    exact hend result w' _ hx hcomp ⟨rfl, rfl, rfl⟩ rfl

/-- A delivery of its own task passes the checks of the digests. -/
theorem deliverTask_eq {task : ExecutionTask} (hl : Lifecycle env w) (ht : Tasked w task)
    (actor correlationId : String) : ∃ proposal approval, w.actionProposal = some proposal ∧
      w.approvalDecision = some approval ∧
      WorkflowService.deliverTask task actor correlationId w = nowFactory >>= fun now =>
        if w.status = .approved then
          WorkflowService.startExecution task actor correlationId w approval now >>=
            WorkflowService.finishExecution task actor correlationId proposal now
        else if w.status ≠ .executing then
          fail .invalidWorkflowState "Only approved work can be executed."
        else
          WorkflowService.finishExecution task actor correlationId proposal now w := by
  obtain ⟨proposal, approval, hp, ha, -⟩ := id ht
  have hd := ht.proposalDigest hp
  obtain ⟨_, _, proposal', _, _, _, _, hp', -, -, ha'⟩ := hl.decided ha
  rw [hp] at hp'
  cases hp'
  rw [ha] at ha'
  have had : approval.proposalDigest = proposal.proposalDigest := by
    rw [Option.some.inj ha']
    rfl
  refine ⟨proposal, approval, hp, ha, ?_⟩
  rw [WorkflowService.deliverTask, hp, ha]
  dsimp only
  rw [if_neg (by rw [hd, had]; simp)]

/-- A task belongs to a workflow that was approved. -/
theorem Tasked.status {task : ExecutionTask} (ht : Tasked w task) (hl : Lifecycle env w) :
    w.status = .approved ∨ w.status = .executing ∨ w.status = .completed ∨
      w.status = .expired := by
  obtain ⟨_, _, -, ha, hd, -⟩ := ht
  have he := hl.evidence
  cases hs : w.status <;> rw [Evidence, hs] at he
  case received =>
    rw [he.2.2.1] at ha
    cases ha
  case awaitingApproval =>
    rw [he.2.1] at ha
    cases ha
  case rejected =>
    obtain ⟨-, ⟨_, _, _, _, _, -, -, -, ha'⟩, -⟩ := he
    rw [ha] at ha'
    rw [Option.some.inj ha'] at hd
    cases hd
  case approved => exact .inl rfl
  case executing => exact .inr (.inl rfl)
  case completed => exact .inr (.inr (.inl rfl))
  case expired => exact .inr (.inr (.inr rfl))
  all_goals exact he.elim

/-- The state in which a delivery has read the time. -/
abbrev State.delivering (s : State) (clock : Nat → Datetime × Datetime) (task : ExecutionTask) :
    State :=
  (((s.at_ (clock 0)).claim task).at_ (clock 1)).at_ (clock 2)

theorem NextTask.consistent {task : ExecutionTask} (hnext : NextTask s p task w)
    (hc : Consistent env s) : Consistent env (s.delivering clock task) := by
  have hc0 : Consistent env (s.at_ (clock 0)) :=
    hc.quiet ⟨rfl, rfl, rfl, List.prefix_rfl, List.prefix_rfl⟩
  obtain ⟨t, ht, htask⟩ := hnext.queued
  have hc1 : Consistent env ((s.at_ (clock 0)).claim task) := by
    have hk : (discipline env).Kept 0 _ _ := kept_claimNext hc0
    rcases claimNext_cases hc0 0 with ⟨he, -⟩ | ⟨k, t', task', hh, ht', htask', he⟩
    · have hh := hnext.head
      change s.taskQueue.pending = [] at he
      rw [he] at hh
      cases hh
    · obtain rfl : task.taskId = k := Option.some.inj (hnext.head.symm.trans hh)
      obtain rfl : t = t' := Option.some.inj (ht.symm.trans ht')
      rw [he, htask', ← htask] at hk
      exact hk.inv
  exact hc1.quiet ⟨rfl, rfl, rfl, List.prefix_rfl, List.prefix_rfl⟩

/-- The delivery of an approved workflow. -/
theorem goes_startExecution {task : ExecutionTask} {approval : ApprovalDecision}
    {proposal : ToolActionProposal} (hc : Consistent env s) (hnext : NextTask s p task w)
    (hs : w.status = .approved) (ha : w.approvalDecision = some approval)
    (hp : w.actionProposal = some proposal) :
    Goes env tid clock s (.processNextTask p correlationId)
      (WorkflowService.startExecution task p.subject correlationId w approval (clock 2).1 >>=
        WorkflowService.finishExecution task p.subject correlationId proposal (clock 2).1)
      (s.delivering clock task) (later (later (later clock))) := by
  have hid := hnext.tasked.workflowId
  have hw : s.stored w.workflowId = some w := hid ▸ hnext.stored
  have hl := (hc.stored hw).2.1
  unfold WorkflowService.startExecution
  by_cases hlate : (clock 2).1 > approval.expiresAt
  · rw [if_pos hlate]
    simp only [Program.bind_assoc]
    exact .update (by exact hw) (.complete (.audit ⟨_, _, .approvalExpired hnext hs ha hlate,
      ⟨rfl, rfl, rfl⟩, (Audited.nil _ _).snoc ..⟩))
  rw [if_neg hlate]
  rw [not_lt] at hlate
  simp only [Program.bind_assoc]
  refine .evaluate (.audit ?_)
  by_cases hallowed : (env.policy (executionContext w.processingContext)).executionAllowed = false
  · rw [if_pos hallowed, denyProcessing_refusal]
    exact ⟨_, _, .executionRefused hnext hs ha hlate hallowed, ⟨rfl, rfl, rfl⟩,
      (Audited.nil _ _).snoc ..⟩
  rw [if_neg hallowed]
  rw [Bool.not_eq_false] at hallowed
  refine .update (by exact hw) ?_
  have hadv : Advance env (.processNextTask p correlationId) w
      (w.beginExecution (env.policy (executionContext w.processingContext))
        (executionContext w.processingContext) (clock 2).1) :=
    .beginExecution hnext.may hs ha hlate hallowed
  have hg := hl.grows hadv
  have hopen : w.executionResult = none := hl.no_ticket (by rw [hs]; decide)
  have hnow : Consistent env (s.delivering clock task) := hnext.consistent hc
  have hput := hnow.put (by exact hw) hadv fun r hr => absurd (hopen.symm.trans hr) nofun
  refine goes_finishExecution
    (hput.quiet ⟨rfl, rfl, rfl, List.prefix_rfl, List.prefix_append _ _⟩) ?_ (hnext.tasked.mono hg)
    (hg.actionProposal _ hp) rfl fun result w'' s'' hx hcomp hsame haudit => ⟨_, _,
      .executed hnext hs ha hlate hallowed hp rfl hx hcomp,
      ⟨hsame.repository, hsame.taskQueue, hsame.toolExecutor⟩, ?_⟩
  · rw [hid]
    exact put_stored_self _ _
  · rw [haudit]
    exact ((Audited.nil _ _).snoc ..).snoc ..

theorem goes_executeTask {task : ExecutionTask} (hc : Consistent env s)
    (hnext : NextTask s p task w) :
    Goes env tid clock s (.processNextTask p correlationId)
      (WorkflowService.executeTask task p.subject correlationId) ((s.at_ (clock 0)).claim task)
      (later clock) := by
  have hid := hnext.tasked.workflowId
  have hw : s.stored w.workflowId = some w := hid ▸ hnext.stored
  have hl := (hc.stored hw).2.1
  refine .get ?_
  rw [show ((s.at_ (clock 0)).claim task).stored task.workflowId = some w from hnext.stored]
  dsimp only
  by_cases hs : w.status = .completed
  · have he := hl.evidence
    rw [Evidence, hs] at he
    obtain ⟨-, -, proposal, result, hp, hx, hd, -⟩ := he
    have hdt : result.proposalDigest = task.proposalDigest :=
      hd.trans (hnext.tasked.proposalDigest hp).symm
    rw [hs, hx]
    dsimp only
    rw [if_neg (not_not.mpr hdt)]
    exact .complete ⟨_, _, .redelivered hnext hs, ⟨rfl, rfl, rfl⟩, .nil _ _⟩
  obtain ⟨proposal, approval, hp, ha, hrun⟩ :=
    deliverTask_eq hl hnext.tasked p.subject correlationId
  split
  · rename_i hs' _
    exact absurd hs' hs
  rw [hrun]
  refine .now ?_
  rcases hnext.tasked.status hl with hs' | hs' | hs' | hs'
  · rw [if_pos hs']
    exact goes_startExecution hc hnext hs' ha hp
  · rw [if_neg (by rw [hs']; decide), if_neg (not_not.mpr hs')]
    exact goes_finishExecution (hnext.consistent hc) hnext.stored hnext.tasked hp hs'
      fun result w' s'' hx hcomp hsame haudit => ⟨_, _, .resumed hnext hs' hp hx hcomp,
        ⟨hsame.repository, hsame.taskQueue, hsame.toolExecutor⟩,
        by rw [haudit]; exact (Audited.nil _ _).snoc ..⟩
  · exact absurd hs' hs
  · rw [if_neg (by rw [hs']; decide), if_pos (by rw [hs']; decide)]
    exact ⟨_, _, .deliveredStale hnext hs', ⟨rfl, rfl, rfl⟩, .nil _ _⟩

theorem goes_process (hc : Consistent env s) :
    Goes env tid clock s (.processNextTask p correlationId)
      (WorkflowService.processNextTask p correlationId) s clock := by
  unfold WorkflowService.processNextTask
  by_cases hroles : p.roles ∩ {.operator, .administrator} = ∅
  · rw [if_pos hroles]
    exact .audit ⟨_, _, .processDenied (not_not.mpr hroles), ⟨rfl, rfl, rfl⟩,
      (Audited.nil _ _).snoc ..⟩
  rw [if_neg hroles]
  refine .claimNext hc
    (fun he => ⟨_, _, .nothingPending hroles he, ⟨rfl, rfl, rfl⟩, .nil _ _⟩)
    fun task t hh ht htask => ?_
  obtain ⟨-, w, hw, htw⟩ := hc.queued ht
  have hid : task.workflowId = t.workflowId := by rw [htask]
  refine goes_executeTask hc ⟨hroles, hh, ⟨t, ht, htask⟩, hid ▸ hw, ?_⟩
  rw [htask]
  exact htw.delivered _

/-- **The ends of a call.** Alone, from a consistent state, a call ends in one of the
ways of `Exit`. -/
theorem Consistent.ends (hc : Consistent env s) (call : Call) :
    Ends env clock s call ((system env).alone tid call s clock) := by
  cases call with
  | create r => exact goes_create hc
  | get p id correlationId => exact goes_get
  | plan p id correlationId => exact goes_plan hc
  | decideApproval p id d reason key correlationId => exact goes_decide hc
  | processNextTask p correlationId => exact goes_process hc

end AgenticDelivery.Api
