import AgenticDelivery.Api.Promises

/-! # The timestamps of a call

A call stamps what it stores with times that it has read from the clock, and it
has read them after the workflow it stamps. This follows from the programs
alone; nothing is assumed about the stores. -/
namespace AgenticDelivery.Api
open AgenticDelivery.Atomic AgenticDelivery.Data AgenticDelivery.Governance AgenticDelivery.Runtime
open Service Program

/-! ## Times in a log -/

@[simp] def timeOf : CallEvent → Option Datetime
  | ⟨.nowFactory, time⟩ => some time
  | ⟨.utcNow, time⟩ => some time
  | _ => none

/-- The times a call has read. -/
def times (log : List CallEvent) : List Datetime := log.filterMap timeOf

section Views
variable (l l' : List CallEvent) (e : CallEvent)

@[simp] theorem times_append : times (l ++ l') = times l ++ times l' := List.filterMap_append

@[simp] theorem times_nil : times [] = [] := rfl

@[simp] theorem times_cons : times (e :: l) = (timeOf e).toList ++ times l := by
  simp only [times, List.filterMap_cons]
  cases timeOf e <;> rfl

end Views

/-- The call has read the workflow, and the time afterwards. -/
def ReadBefore (log : List CallEvent) (w : Workflow) (t : Datetime) : Prop :=
  ∃ before after, log = before ++ after ∧ w ∈ reads before ∧ t ∈ times after

/-- `w'` goes on from `w` with transitions of the time `t`. -/
structure Stamped (w w' : Workflow) (t : Datetime) : Prop where
  workflowId : w'.workflowId = w.workflowId
  createdAt : w'.createdAt = w.createdAt
  transitions : ∃ news, w'.transitions = w.transitions ++ news ∧ ∀ x ∈ news, x.at_ = t

/-- The call has read the workflow before the time `t`, or has made it of one it has
read, with transitions of that time. -/
inductive Seen (log : List CallEvent) : Workflow → Datetime → Prop
  | read {w t} (h : ReadBefore log w t) : Seen log w t
  | stamped {w w' t} (h : Seen log w t) (hs : Stamped w w' t) : Seen log w' t

/-- What the call stores is stamped with a time at which it has seen the workflow; a
completion carries the record that the executor has given at that time. -/
def Stores (log : List CallEvent) (w' : Workflow) : Prop :=
  ∃ w t, Seen log w t ∧ Stamped w w' t ∧
    (w'.status ≠ .completed ∨ ∃ result task proposal, w.completeExecution result t = .ok w' ∧
      (⟨.execute task proposal t, .ok result⟩ : CallEvent) ∈ log)

/-- What an operation of a call owes to the clock, given the log of the call so far. -/
def Fits (log : List CallEvent) : Op → Prop
  | .repositoryUpdate w' _ => Stores log w'
  | .repositoryCreate w _ => w.createdAt ∈ times log ∧ ∀ x ∈ w.transitions, x.at_ = w.createdAt
  | .execute _ _ now => ∃ w ∈ reads log ++ writes log, w.status = .executing ∧ Seen log w now
  | _ => True

/-! ## Steps of a workflow -/

section Stamps
variable {w w' : Workflow} {now : Datetime}

theorem at_of_checkpoints :
    ∀ (steps : List CompletedState) (previous : WorkflowState),
      ∀ x ∈ Workflow.checkpoints now previous steps, x.at_ = now
  | [], _ => by
    intro x hx
    rw [List.mem_singleton.mp hx]
  | _ :: steps, _ => by
    intro x hx
    rcases List.mem_cons.mp hx with rfl | hx
    · rfl
    · exact at_of_checkpoints steps _ x hx

theorem stamped_applyPlanningResult (w : Workflow) (result : PlanningResult)
    (decision : PolicyDecision) (proposal : ToolActionProposal) (now : Datetime) :
    Stamped w (w.applyPlanningResult result decision proposal now) now :=
  ⟨rfl, rfl, _, rfl, at_of_checkpoints _ _⟩

theorem at_of_singleton {x : StateTransition} (hx : x.at_ = now) : ∀ y ∈ [x], y.at_ = now := by
  intro y hy
  rw [List.mem_singleton.mp hy, hx]

theorem stamped_recordApproval (w : Workflow) (approval : ApprovalDecision) (now : Datetime) :
    Stamped w (w.recordApproval approval now) now :=
  ⟨rfl, rfl, _, rfl, at_of_singleton rfl⟩

theorem stamped_expire (w : Workflow) (now : Datetime) : Stamped w (w.expire now) now :=
  ⟨rfl, rfl, _, rfl, at_of_singleton rfl⟩

theorem stamped_beginExecution (w : Workflow) (decision : PolicyDecision)
    (context : ProcessingContext) (now : Datetime) :
    Stamped w (w.beginExecution decision context now) now :=
  ⟨rfl, rfl, _, rfl, at_of_singleton rfl⟩

theorem stamped_completeExecution {result : ToolExecutionResult}
    (h : w.completeExecution result now = .ok w') : Stamped w w' now := by
  obtain ⟨_, -, rfl⟩ := completeExecution_ok h
  refine ⟨rfl, rfl, _, rfl, fun x hx => ?_⟩
  simp only [List.mem_cons, List.not_mem_nil, or_false] at hx
  rcases hx with rfl | rfl <;> rfl

end Stamps

/-! ## Growing logs -/

section Growth
variable {log : List CallEvent} {w w' : Workflow} {t : Datetime}

theorem ReadBefore.snoc (h : ReadBefore log w t) (e : CallEvent) :
    ReadBefore (log ++ [e]) w t := by
  obtain ⟨before, after, rfl, hw, ht⟩ := h
  refine ⟨before, after ++ [e], by rw [List.append_assoc], hw, ?_⟩
  rw [times_append]
  exact List.mem_append_left _ ht

theorem readBefore_snoc {e : CallEvent} (hw : w ∈ reads log) (he : timeOf e = some t) :
    ReadBefore (log ++ [e]) w t := by
  exact ⟨log, [e], rfl, hw, List.mem_filterMap.mpr ⟨e, List.mem_singleton_self e, he⟩⟩

/-- What one more event says about times: what the log has said, or the time is new. -/
theorem readBefore_snoc_cases {e : CallEvent} (h : ReadBefore (log ++ [e]) w t) :
    ReadBefore log w t ∨ w ∈ reads log ∧ timeOf e = some t := by
  obtain ⟨before, after, hlog, hw, ht⟩ := h
  rcases List.eq_nil_or_concat' after with rfl | ⟨front, x, rfl⟩
  · cases ht
  · rw [← List.append_assoc] at hlog
    obtain ⟨rfl, hx⟩ := List.append_inj' hlog rfl
    cases hx
    rw [times_append] at ht
    rcases List.mem_append.mp ht with ht | ht
    · exact .inl ⟨before, front, rfl, hw, ht⟩
    · obtain ⟨x, hx, ht⟩ := List.mem_filterMap.mp ht
      rw [List.mem_singleton.mp hx] at ht
      refine .inr ⟨?_, ht⟩
      rw [reads_append]
      exact List.mem_append_left _ hw

theorem Seen.snoc (h : Seen log w t) (e : CallEvent) : Seen (log ++ [e]) w t := by
  induction h with
  | read h => exact .read (h.snoc e)
  | stamped _ hs ih => exact .stamped ih hs

theorem Seen.time (h : Seen log w t) : t ∈ times log := by
  induction h with
  | read h =>
    obtain ⟨before, after, rfl, -, ht⟩ := h
    rw [times_append]
    exact List.mem_append_right _ ht
  | stamped _ _ ih => exact ih

/-- What a call has seen is a workflow that it has read, or goes on from one. -/
theorem Seen.workflowId (h : Seen log w t) : ∃ w₀ ∈ reads log, w.workflowId = w₀.workflowId := by
  induction h with
  | @read w _ h =>
    obtain ⟨before, after, rfl, hw, -⟩ := h
    exact ⟨w, by rw [reads_append]; exact List.mem_append_left _ hw, rfl⟩
  | stamped _ hs ih =>
    obtain ⟨w₀, hw₀, hid⟩ := ih
    exact ⟨w₀, hw₀, hs.workflowId.trans hid⟩

end Growth

/-! ## The programs -/

/-- The spec of a call that owes `Fits`, and nothing when it ends. -/
def stamping : Spec Op Reply Failure Workflow State where
  guar log op _ _ _ := Fits log op
  post _ _ _ := True

/-- Every operation of the program fits its log, whatever the stores hold. -/
abbrev Timed (env : Environment) (tid : Nat) (p : Service Workflow) (log : List CallEvent)
    (s : State) : Prop :=
  Safe (exec env) Discipline.free tid stamping p log s

section Rules
variable {env : Environment} {tid : Nat} {log : List CallEvent} {s : State}

theorem timed_done (value : Workflow) : Timed env tid (.done value) log s := fun _ _ => trivial

theorem timed_raise (error : Failure) : Timed env tid (.raise error) log s :=
  fun _ _ => trivial

theorem timed_port {op : Op} {f : Reply op → Service Workflow} (hfit : Fits log op)
    (h : ∀ r s, Timed env tid (f r) (log ++ [⟨op, r⟩]) s) :
    Timed env tid (port op >>= f) log s :=
  Safe.call fun s' _ => ⟨Discipline.free_kept tid s' _, hfit, h _ _⟩

/-- An operation that may fail, in front of a program. -/
theorem timed_result {op : Op} {α : Type} {g : Reply op → Service α}
    {f : α → Service Workflow} (hfit : Fits log op)
    (hg : ∀ r, (∃ e, g r = .raise e) ∨ ∃ value, g r = .done value)
    (h : ∀ r value s, g r = .done value → Timed env tid (f value) (log ++ [⟨op, r⟩]) s) :
    Timed env tid (port op >>= g >>= f) log s := by
  refine Safe.call fun s' _ => ⟨Discipline.free_kept tid s' _, hfit, ?_⟩
  change Timed env tid (g (exec env tid op s').1 >>= f) _ _
  rcases hg (exec env tid op s').1 with ⟨e, he⟩ | ⟨value, he⟩
  · rw [he]
    exact timed_raise e
  · rw [he, done_bind]
    exact h _ value _ he

theorem orRaise_cases {α : Type} (r : Except Failure α) :
    (∃ e, (orRaise r : Service α) = .raise e) ∨ ∃ value, (orRaise r : Service α) = .done value := by
  cases r with
  | error e => exact .inl ⟨e, rfl⟩
  | ok value => exact .inr ⟨value, rfl⟩

theorem timed_audit {action outcome correlationId : String} {subject resourceId : Option String}
    {f : Unit → Service Workflow}
    (h : ∀ s, Timed env tid (f ())
      (log ++ [⟨.auditRecord action outcome subject resourceId correlationId, ()⟩]) s) :
    Timed env tid (auditRecord action outcome subject resourceId correlationId >>= f) log s :=
  timed_port trivial fun _ => h

theorem timed_get {id : String} {f : Option Workflow → Service Workflow}
    (h : ∀ r s, Timed env tid (f r) (log ++ [⟨.repositoryGet id, r⟩]) s) :
    Timed env tid (repositoryGet id >>= f) log s :=
  timed_port trivial h

theorem timed_classify {text : String} {declared : Option (Finset DataCategory)}
    {f : DataProfile → Service Workflow}
    (h : ∀ r s, Timed env tid (f r) (log ++ [⟨.classify text declared, r⟩]) s) :
    Timed env tid (classify text declared >>= f) log s :=
  timed_port trivial h

theorem timed_evaluate {context : ProcessingContext} {f : PolicyDecision → Service Workflow}
    (h : ∀ r s, Timed env tid (f r) (log ++ [⟨.evaluate context, r⟩]) s) :
    Timed env tid (evaluate context >>= f) log s :=
  timed_port trivial h

theorem timed_runtimePlan {planningInput : PlanningInput}
    {f : Except RuntimeError PlanningResult → Service Workflow}
    (h : ∀ r s, Timed env tid (f r) (log ++ [⟨.runtimePlan planningInput, r⟩]) s) :
    Timed env tid (runtimePlan planningInput >>= f) log s :=
  timed_port trivial h

theorem timed_idFactory {f : String → Service Workflow}
    (h : ∀ r s, Timed env tid (f r) (log ++ [⟨.idFactory, r⟩]) s) :
    Timed env tid (idFactory >>= f) log s :=
  timed_port trivial h

theorem timed_now {f : Datetime → Service Workflow}
    (h : ∀ r s, Timed env tid (f r) (log ++ [⟨.nowFactory, r⟩]) s) :
    Timed env tid (nowFactory >>= f) log s :=
  timed_port trivial h

theorem timed_utcNow {f : Datetime → Service Workflow}
    (h : ∀ r s, Timed env tid (f r) (log ++ [⟨.utcNow, r⟩]) s) :
    Timed env tid (utcNow >>= f) log s :=
  timed_port trivial h

theorem timed_complete {taskId : String} {f : Unit → Service Workflow}
    (h : ∀ s, Timed env tid (f ()) (log ++ [⟨.complete taskId, ()⟩]) s) :
    Timed env tid (complete taskId >>= f) log s :=
  timed_port trivial fun _ => h

theorem timed_create {w : Workflow} {key : String} {f : Workflow → Service Workflow}
    (hfit : Fits log (.repositoryCreate w key))
    (h : ∀ r v s, Timed env tid (f v) (log ++ [⟨.repositoryCreate w key, r⟩]) s) :
    Timed env tid (repositoryCreate w key >>= f) log s :=
  timed_result hfit orRaise_cases fun r v s _ => h r v s

theorem timed_enqueue {task : ExecutionTask} {f : ExecutionTask → Service Workflow}
    (h : ∀ r v s, Timed env tid (f v) (log ++ [⟨.enqueue task, r⟩]) s) :
    Timed env tid (enqueue task >>= f) log s :=
  timed_result trivial orRaise_cases fun r v s _ => h r v s

theorem timed_claimNext {f : Option ExecutionTask → Service Workflow}
    (h : ∀ r v s, Timed env tid (f v) (log ++ [⟨.claimNext, r⟩]) s) :
    Timed env tid (claimNext >>= f) log s :=
  timed_result trivial orRaise_cases fun r v s _ => h r v s

theorem timed_execute {task : ExecutionTask} {proposal : ToolActionProposal} {now : Datetime}
    {f : ToolExecutionResult → Service Workflow} (hfit : Fits log (.execute task proposal now))
    (h : ∀ r s, Timed env tid (f r) (log ++ [⟨.execute task proposal now, .ok r⟩]) s) :
    Timed env tid (execute task proposal now >>= f) log s := by
  refine timed_result hfit orRaise_cases fun r v s hr => ?_
  cases r with
  | error e => cases hr
  | ok r =>
    cases hr
    exact h _ s

/-- An update returns the workflow that it stores. -/
theorem timed_update {w' : Workflow} {v : Nat} {f : Workflow → Service Workflow}
    (hfit : Stores log w')
    (h : ∀ s, Timed env tid (f w') (log ++ [⟨.repositoryUpdate w' v, .ok w'⟩]) s) :
    Timed env tid (repositoryUpdate w' v >>= f) log s := by
  refine Safe.call fun s' _ => ⟨Discipline.free_kept tid s' _, hfit, ?_⟩
  rcases update_cases env tid s' w' v with ⟨he, -⟩ | ⟨_, -, -, he⟩
  · rw [he]
    exact timed_raise _
  · rw [he]
    exact h _

end Rules

section Methods
variable {env : Environment} {tid : Nat} {log : List CallEvent} {s : State} {principal : Principal}
  {workflowId key correlationId : String}

theorem timed_denyProcessing (decision : PolicyDecision) :
    Timed env tid (denyProcessing decision) log s := by
  unfold denyProcessing
  split
  · exact timed_raise _
  · exact timed_raise _

theorem timed_getCall :
    Timed env tid (WorkflowService.get principal workflowId correlationId) log s := by
  have hidden : ∀ log s,
      Timed env tid (WorkflowService.get.notFound principal workflowId correlationId) log s :=
    fun _ _ => timed_audit fun _ => timed_raise _
  refine timed_get fun found s => ?_
  cases found with
  | none => exact hidden _ _
  | some w =>
    dsimp only
    split
    · exact hidden _ _
    · exact timed_audit fun _ => timed_done w

theorem timed_createCall (r : CreateRequest) :
    Timed env tid (WorkflowService.create env r) log s := by
  unfold WorkflowService.create
  split
  · exact timed_audit fun _ => timed_raise _
  dsimp only
  split
  · exact timed_raise _
  refine timed_classify fun profile _ => timed_evaluate fun decision _ =>
    timed_audit fun _ => ?_
  split
  · exact timed_denyProcessing _
  refine timed_idFactory fun id _ => timed_utcNow fun createdAt _ => timed_create ?_
    fun _ v _ => timed_audit fun _ => timed_done v
  refine ⟨?_, at_of_singleton rfl⟩
  simp [Workflow.receive]

theorem timed_plan :
    Timed env tid (WorkflowService.plan env principal workflowId correlationId) log s := by
  have hidden : ∀ log s,
      Timed env tid (WorkflowService.plan.notFound principal workflowId correlationId) log s :=
    fun _ _ => timed_audit fun _ => timed_raise _
  refine timed_get fun found s => ?_
  cases found with
  | none => exact hidden _ _
  | some w =>
  dsimp only
  split
  · exact hidden _ _
  split
  · exact timed_done w
  split
  · exact timed_raise _
  refine timed_evaluate fun decision _ => timed_audit fun _ => ?_
  split
  · exact timed_denyProcessing _
  refine timed_runtimePlan fun planned _ => ?_
  cases planned with
  | error e =>
    cases e with
    | promptInjectionBlocked message => exact timed_audit fun _ => timed_raise _
    | evaluationGateBlocked result => exact timed_audit fun _ => timed_raise _
    | other message => exact timed_raise _
  | ok result =>
    refine timed_now fun now _ => timed_utcNow fun utc _ => timed_update ?_
      fun _ => timed_audit fun _ => timed_done _
    refine ⟨w, utc, .read (readBefore_snoc (by simp) rfl), stamped_applyPlanningResult .., .inl ?_⟩
    simp [Workflow.applyPlanningResult]

theorem timed_enqueueApproved {decision : Decision} {w : Workflow} {proposal : ToolActionProposal}
    {f : Unit → Service Workflow} (h : ∀ log s, Timed env tid (f ()) log s) :
    Timed env tid (WorkflowService.enqueueApproved decision w proposal >>= f) log s := by
  cases decision with
  | approved =>
    simp only [WorkflowService.enqueueApproved, Program.bind_assoc]
    exact timed_enqueue fun _ _ _ => h _ _
  | rejected => exact h _ _

theorem timed_replay {w : Workflow} {existing : ApprovalDecision} {decision : Decision} :
    Timed env tid (WorkflowService.replayDecision w existing decision key) log s := by
  unfold WorkflowService.replayDecision
  split
  · exact timed_raise _
  split
  · exact timed_raise _
  split
  · exact timed_enqueueApproved fun _ _ => timed_done w
  · exact timed_done w

theorem timed_firstDecision {w : Workflow} {proposal : ToolActionProposal} {decision : Decision}
    {reason : String} (hread : w ∈ reads log) :
    Timed env tid (WorkflowService.firstDecision principal workflowId w proposal decision reason
      key correlationId) log s := by
  refine timed_now fun now _ => ?_
  have hseen : Seen (log ++ [⟨.nowFactory, now⟩]) w now := .read (readBefore_snoc hread rfl)
  split
  · refine timed_update ⟨w, now, hseen, stamped_expire w now, .inl ?_⟩
      fun _ => timed_audit fun _ => timed_raise _
    simp [Workflow.expire]
  · refine timed_update ⟨w, now, hseen, stamped_recordApproval .., .inl ?_⟩ fun _ =>
      timed_enqueueApproved fun _ _ => timed_audit fun _ => timed_done _
    cases decision <;> simp [Workflow.recordApproval, createApprovalDecision, stateOfDecision]

theorem timed_decideApproval {decision : Decision} {reason : String} :
    Timed env tid (WorkflowService.decideApproval principal workflowId decision reason key
      correlationId) log s := by
  unfold WorkflowService.decideApproval
  split
  · exact timed_audit fun _ => timed_raise _
  refine timed_get fun found _ => ?_
  cases found with
  | none => exact timed_raise _
  | some w =>
  dsimp only
  split
  · exact timed_audit fun _ => timed_raise _
  split
  · exact timed_replay
  split
  · exact timed_raise _
  split
  · exact timed_raise _
  · exact timed_firstDecision (by simp)

/-- From the executor on, for an executing workflow that the call has seen at `now`. -/
theorem timed_finishExecution {task : ExecutionTask} {proposal : ToolActionProposal}
    {actor : String} {now : Datetime} {w : Workflow} (hw : w ∈ reads log ++ writes log)
    (hs : w.status = .executing) (hseen : Seen log w now) :
    Timed env tid
      (WorkflowService.finishExecution task actor correlationId proposal now w) log s := by
  refine timed_execute ⟨w, hw, hs, hseen⟩ fun result _ => ?_
  cases hcomp : w.completeExecution result now with
  | error e => exact timed_raise e
  | ok w' =>
    refine timed_update ⟨w, now, hseen.snoc _, stamped_completeExecution hcomp,
      .inr ⟨result, task, proposal, hcomp, ?_⟩⟩ fun _ => timed_complete fun _ =>
        timed_audit fun _ => timed_done w'
    exact List.mem_append_right _ (List.mem_singleton_self _)

theorem timed_startExecution {task : ExecutionTask} {proposal : ToolActionProposal}
    {approval : ApprovalDecision} {actor : String} {now : Datetime} {w : Workflow}
    (hseen : Seen log w now) :
    Timed env tid
      (WorkflowService.startExecution task actor correlationId w approval now >>=
        WorkflowService.finishExecution task actor correlationId proposal now) log s := by
  unfold WorkflowService.startExecution
  split
  · simp only [Program.bind_assoc]
    refine timed_update ⟨w, now, hseen, stamped_expire w now, .inl ?_⟩ fun _ =>
      timed_complete fun _ => timed_audit fun _ => timed_raise _
    simp [Workflow.expire]
  simp only [Program.bind_assoc]
  refine timed_evaluate fun decision _ => timed_audit fun _ => ?_
  rw [ite_bind]
  split
  · unfold denyProcessing
    split
    · exact timed_raise _
    · exact timed_raise _
  refine timed_update ⟨w, now, (hseen.snoc _).snoc _, stamped_beginExecution .., .inl ?_⟩
    fun _ => timed_finishExecution ?_ rfl
      (.stamped (((hseen.snoc _).snoc _).snoc _) (stamped_beginExecution ..))
  · simp [Workflow.beginExecution]
  · simp

theorem timed_executeTask {task : ExecutionTask} {actor : String} :
    Timed env tid (WorkflowService.executeTask task actor correlationId) log s := by
  refine timed_get fun found _ => ?_
  cases found with
  | none => exact timed_raise _
  | some w =>
  dsimp only
  split
  · split
    · exact timed_raise _
    · exact timed_complete fun _ => timed_done w
  unfold WorkflowService.deliverTask
  split
  · split
    · exact timed_raise _
    refine timed_now fun now _ => ?_
    have hread : w ∈ reads (log ++ [⟨.repositoryGet task.workflowId, some w⟩]) := by simp
    have hseen : Seen _ w now := .read (readBefore_snoc hread (e := ⟨.nowFactory, now⟩) rfl)
    split
    · exact timed_startExecution hseen
    split
    · exact timed_raise _
    · rename_i hs
      exact timed_finishExecution (by simp) (not_not.mp hs) hseen
  · exact timed_raise _

theorem timed_processNextTask :
    Timed env tid (WorkflowService.processNextTask principal correlationId) log s := by
  unfold WorkflowService.processNextTask
  split
  · exact timed_audit fun _ => timed_raise _
  refine timed_claimNext fun _ claimed _ => ?_
  cases claimed with
  | none => exact timed_raise _
  | some task => exact timed_executeTask

/-- **Every call stamps what it stores in time.** -/
theorem stamping_disciplined :
    (system env).Disciplined Discipline.free fun _ _ => stamping where
  body tid call s _ := by
    cases call with
    | create r => exact timed_createCall r
    | get => exact timed_getCall
    | plan => exact timed_plan
    | decideApproval => exact timed_decideApproval
    | processNextTask => exact timed_processNextTask
  tick _ tid s _ := Discipline.free_rely tid s _

end Methods

end AgenticDelivery.Api
