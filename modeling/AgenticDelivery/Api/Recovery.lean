import AgenticDelivery.Api.SideEffects

/-! # Recovery

Calls that run alone, from any state that an interrupted run has left behind:
a delivery of a task to its end, and the replay of an approval. -/
namespace AgenticDelivery.Api
open AgenticDelivery.Atomic AgenticDelivery.Data AgenticDelivery.Governance AgenticDelivery.Runtime
open Service Program

variable {env : Environment} {c : PoolConfig} {tid : Nat} {s : State} {w w' : Workflow}
  {task : ExecutionTask} {proposal : ToolActionProposal} {approval : ApprovalDecision}
  {actor correlationId : String} {now : Datetime}

/-! ## Operations of a call that runs alone -/

theorem run_get (id : String) (f : Option Workflow → Service Workflow) :
    (repositoryGet id >>= f).run (exec env tid) s = (f (s.stored id)).run (exec env tid) s := rfl

theorem run_now (f : Datetime → Service Workflow) :
    (nowFactory >>= f).run (exec env tid) s = (f s.now).run (exec env tid) s := rfl

theorem run_evaluate (context : ProcessingContext) (f : PolicyDecision → Service Workflow) :
    (evaluate context >>= f).run (exec env tid) s =
      (f (env.policy context)).run (exec env tid) s := rfl

/-- The state after an audit event. -/
def State.audited (s : State) (action outcome : String) (subject resourceId : Option String)
    (correlationId : String) : State :=
  { s with audit := recordAudit s.audit s.utc action outcome subject resourceId correlationId }

theorem consistent_audited (hc : Consistent env s) (action outcome : String)
    (subject resourceId : Option String) (correlationId : String) :
    Consistent env (s.audited action outcome subject resourceId correlationId) := by
  have hq : Quiet s (s.audited action outcome subject resourceId correlationId) :=
    ⟨rfl, rfl, rfl, List.prefix_rfl, List.prefix_append _ _⟩
  have hk : (discipline env).Kept 0 s _ := hq.kept hc
  exact hk.inv

theorem run_audit (action outcome correlationId : String) (subject resourceId : Option String)
    (f : Unit → Service Workflow) :
    (auditRecord action outcome subject resourceId correlationId >>= f).run (exec env tid) s =
      (f ()).run (exec env tid) (s.audited action outcome subject resourceId correlationId) := rfl

theorem run_complete (taskId : String) (f : Unit → Service Workflow) :
    (complete taskId >>= f).run (exec env tid) s =
      (f ()).run (exec env tid) { s with taskQueue := s.taskQueue.complete taskId } := rfl

theorem run_update (hw : s.stored w'.workflowId = some w) (f : Workflow → Service Workflow) :
    (repositoryUpdate w' w.stateVersion >>= f).run (exec env tid) s =
      (f w').run (exec env tid) (s.put w') := by
  rcases update_cases env tid s w' w.stateVersion with ⟨-, hv⟩ | ⟨_, -, -, he⟩
  · exact absurd rfl (hv w hw)
  · exact run_perform (g := orRaise) he rfl f

/-- The executor answers the task of an executing workflow, and leaves the
repository and the queue alone. -/
theorem run_execute (hc : Consistent env s) (hw : s.stored task.workflowId = some w)
    (ht : Tasked w task) (hp : w.actionProposal = some proposal) (hs : w.status = .executing)
    (tid : Nat) (now : Datetime) :
    ∃ r s', (∀ f : ToolExecutionResult → Service Workflow,
        (execute task proposal now >>= f).run (exec env tid) s = (f r).run (exec env tid) s') ∧
      s'.repository = s.repository ∧ s'.taskQueue = s.taskQueue := by
  rcases execute_cases hc hw ht hp (.inl hs) tid now with ⟨r, -, -, he⟩ | ⟨-, -, he⟩
  · exact ⟨r, s, run_perform (g := orRaise) he rfl, rfl, rfl⟩
  · exact ⟨SimulatedTicketExecutor.ticketRecord task proposal now,
      s.file (SimulatedTicketExecutor.ticketRecord task proposal now),
      run_perform (g := orRaise) he rfl, rfl, rfl⟩

/-! ## A delivery alone -/

/-- An operator of the name the delivery is accounted to. -/
def worker (actor : String) : Principal := ⟨actor, "", {.operator}⟩

theorem worker_mayProcess (actor : String) : (worker actor).MayProcess :=
  (by decide : ({.operator} : Finset Role) ∩ {.operator, .administrator} ≠ ∅)

/-- The delivery returned a completed workflow, stored it and acknowledged its task. -/
structure Finished (task : ExecutionTask) (r : Except Failure Workflow × State) : Prop where
  returned : ∃ w, r.1 = .ok w ∧ w.status = .completed ∧ r.2.stored task.workflowId = some w
  retired : task.taskId ∈ r.2.taskQueue.completed

/-- The delivery found the approval expired, stored that and acknowledged its task. -/
structure Overdue (task : ExecutionTask) (r : Except Failure Workflow × State) : Prop where
  raised : r.1 = .error
    (.application .approvalExpired "The approval expired before task execution.")
  stored : ∃ w, r.2.stored task.workflowId = some w ∧ w.status = .expired
  retired : task.taskId ∈ r.2.taskQueue.completed

theorem finished_finishExecution (hc : Consistent env s) (hw : s.stored task.workflowId = some w)
    (hs : w.status = .executing) (ht : Tasked w task) (hp : w.actionProposal = some proposal) :
    Finished task ((WorkflowService.finishExecution task actor correlationId proposal now w).run
      (exec env tid) s) := by
  obtain ⟨r, s1, hrun, hrep, -⟩ := run_execute hc hw ht hp hs tid now
  unfold WorkflowService.finishExecution
  rw [hrun]
  have he := (hc.stored hw).2.1.evidence
  rw [Evidence, hs] at he
  obtain ⟨-, ⟨_, _, _, _, _, -, -, -, ha⟩, -⟩ := he
  cases hcomp : w.completeExecution r now with
  | error e =>
    rw [Workflow.completeExecution, ha] at hcomp
    cases hcomp
  | ok w' =>
    obtain ⟨_, -, hw'⟩ := completeExecution_ok hcomp
    have hid : w'.workflowId = task.workflowId := by rw [hw', ht.workflowId]
    have hstored : s1.stored w'.workflowId = some w := by rw [hid, State.stored, hrep]; exact hw
    rw [orRaise_ok, done_bind, run_update hstored, run_complete, run_audit]
    exact ⟨⟨w', rfl, by rw [hw'], by rw [← hid]; exact put_stored_self s1 w'⟩,
      Finset.mem_insert_self _ _⟩

/-- An approved workflow in time is stored as executing, and its execution ends. -/
theorem finished_beginExecution (hc : Consistent env s) (hw : s.stored task.workflowId = some w)
    (hs : w.status = .approved) (ht : Tasked w task) (hp : w.actionProposal = some proposal)
    (ha : w.approvalDecision = some approval) (hle : now ≤ approval.expiresAt)
    (hallowed : (env.policy (executionContext w.processingContext)).executionAllowed = true) :
    Finished task ((repositoryUpdate (w.beginExecution
        (env.policy (executionContext w.processingContext))
        (executionContext w.processingContext) now) w.stateVersion >>=
      WorkflowService.finishExecution task actor correlationId proposal now).run
        (exec env tid) s) := by
  have hadv : Advance env (.processNextTask (worker actor) correlationId) w
      (w.beginExecution (env.policy (executionContext w.processingContext))
        (executionContext w.processingContext) now) :=
    .beginExecution (worker_mayProcess actor) hs ha hle hallowed
  have hl := (hc.stored hw).2.1
  have hg := hl.grows hadv
  have hopen : w.executionResult = none := hl.no_ticket (by rw [hs]; decide)
  have hw1 : s.stored (w.beginExecution (env.policy (executionContext w.processingContext))
      (executionContext w.processingContext) now).workflowId = some w := by
    rw [ht.workflowId] at hw
    exact hw
  rw [run_update hw1]
  refine finished_finishExecution (hc.put hw1 hadv fun r hr => ?_) ?_ rfl (ht.mono hg)
    (hg.actionProposal _ hp)
  · exact absurd (hopen.symm.trans hr) nofun
  · rw [ht.workflowId]
    exact put_stored_self _ _

theorem finished_startExecution (hc : Consistent env s) (hw : s.stored task.workflowId = some w)
    (hs : w.status = .approved) (ht : Tasked w task) (hp : w.actionProposal = some proposal)
    (ha : w.approvalDecision = some approval) (hle : now ≤ approval.expiresAt)
    (hallowed : (env.policy (executionContext w.processingContext)).executionAllowed = true) :
    Finished task ((WorkflowService.startExecution task actor correlationId w approval now >>=
      WorkflowService.finishExecution task actor correlationId proposal now).run
        (exec env tid) s) := by
  unfold WorkflowService.startExecution
  rw [if_neg (not_lt.mpr hle)]
  simp only [Program.bind_assoc]
  rw [run_evaluate, run_audit, if_neg (by rw [hallowed]; decide)]
  exact finished_beginExecution (consistent_audited hc _ _ _ _ _) hw hs ht hp ha hle hallowed

theorem overdue_startExecution (hw : s.stored task.workflowId = some w) (ht : Tasked w task)
    (hlt : approval.expiresAt < now) (f : Workflow → Service Workflow) :
    Overdue task ((WorkflowService.startExecution task actor correlationId w approval now >>=
      f).run (exec env tid) s) := by
  have hw1 : s.stored (w.expire now).workflowId = some w := by
    rw [ht.workflowId] at hw
    exact hw
  unfold WorkflowService.startExecution
  rw [if_pos hlt]
  simp only [Program.bind_assoc]
  rw [run_update hw1, run_complete, run_audit]
  refine ⟨rfl, ⟨w.expire now, ?_, rfl⟩, Finset.mem_insert_self _ _⟩
  rw [ht.workflowId]
  exact put_stored_self s (w.expire now)

/-- A delivery of its own task passes the checks of the digests, and reads the time. -/
theorem run_executeTask (hc : Consistent env s) (hw : s.stored task.workflowId = some w)
    (ht : Tasked w task) (hs : w.status ≠ .completed) :
    ∃ proposal approval, w.actionProposal = some proposal ∧ w.approvalDecision = some approval ∧
      (WorkflowService.executeTask task actor correlationId).run (exec env tid) s =
        (if w.status = .approved then
          WorkflowService.startExecution task actor correlationId w approval s.now >>=
            WorkflowService.finishExecution task actor correlationId proposal s.now
        else if w.status ≠ .executing then
          fail .invalidWorkflowState "Only approved work can be executed."
        else
          WorkflowService.finishExecution task actor correlationId proposal s.now w).run
            (exec env tid) s := by
  obtain ⟨proposal, approval, hp, ha, -⟩ := id ht
  have hd := ht.proposalDigest hp
  obtain ⟨_, _, proposal', _, _, _, _, hp', -, -, ha'⟩ := (hc.stored hw).2.1.decided ha
  rw [hp] at hp'
  cases hp'
  rw [ha] at ha'
  refine ⟨proposal, approval, hp, ha, ?_⟩
  have had : approval.proposalDigest = proposal.proposalDigest := by
    rw [Option.some.inj ha']
    rfl
  unfold WorkflowService.executeTask
  rw [run_get, hw]
  dsimp only
  split
  · rename_i hs' _
    exact absurd hs' hs
  · rw [WorkflowService.deliverTask, hp, ha]
    dsimp only
    rw [if_neg (by rw [hd, had]; simp), run_now]

/-! ## Crash recovery -/

/-- `task` is a delivery of the pending task of the workflow `id`. -/
structure Delivers (s : State) (id : String) (task : ExecutionTask) : Prop where
  workflowId : task.workflowId = id
  pending : task.taskId ∈ s.taskQueue.pending
  queued : ∃ n, s.taskQueue.tasks.get? task.taskId = some { task with deliveryAttempt := n }

/-- The outcome is the completed workflow, with one record for it: the one that was
there before, if there was one. -/
def Recovered (s : State) (w : Workflow) (r : Except Failure Workflow × State) : Prop :=
  ∃ w' rec, r.1 = .ok w' ∧ w'.workflowId = w.workflowId ∧ w'.status = .completed ∧
    r.2.stored w.workflowId = some w' ∧ w'.executionResult = some rec ∧
    r.2.records.filter (RecordFor w) = [rec] ∧ ∀ old ∈ s.records, RecordFor w old → old = rec

/-- The outcome is the error of an expired approval; the workflow is stored as
expired, and nothing is on record for it. -/
def RecoveredLate (w : Workflow) (r : Except Failure Workflow × State) : Prop :=
  r.1 = .error (.application .approvalExpired "The approval expired before task execution.") ∧
  (∃ w', r.2.stored w.workflowId = some w' ∧ w'.status = .expired) ∧
  ∀ rec ∈ r.2.records, ¬RecordFor w rec

theorem Delivers.tasked {id : String} (hd : Delivers s id task) (hc : Consistent env s)
    (hw : s.stored id = some w) : Tasked w task := by
  obtain ⟨n, hq⟩ := hd.queued
  obtain ⟨-, v, hv, ht⟩ := hc.queued hq
  have hvw : some v = some w := by
    rw [← hv, ← hw, ← hd.workflowId]
  cases hvw
  exact ht.delivered task.deliveryAttempt

theorem recordFor_congr (h : w'.workflowId = w.workflowId) : RecordFor w' = RecordFor w := by
  funext r
  rw [RecordFor, RecordFor, h]

theorem recovered_of_finished {r : Except Failure Workflow × State} (hc : Consistent env r.2)
    (he : Evolve env s r.2) (hid : task.workflowId = w.workflowId) (hfin : Finished task r) :
    Recovered s w r := by
  obtain ⟨⟨w', hr, hs, hw'⟩, -⟩ := hfin
  rw [hid] at hw'
  have hww := (hc.stored hw').1
  obtain ⟨rec, hx, hrec⟩ := filter_records_of_completed hc hw' hs
  have hrec' : r.2.records.filter (RecordFor w) = [rec] := by
    simpa only [recordFor_congr hww] using hrec
  refine ⟨w', rec, hr, hww, hs, hw', hx, hrec', fun old hold hfor => ?_⟩
  obtain ⟨key, hold⟩ := mem_records.mp hold
  have hm : old ∈ r.2.records.filter (RecordFor w) :=
    List.mem_filter.mpr ⟨mem_records.mpr ⟨key, he.record hold⟩, decide_eq_true hfor⟩
  rw [hrec'] at hm
  exact List.mem_singleton.mp hm

theorem recoveredLate_of_overdue {r : Except Failure Workflow × State} (hc : Consistent env r.2)
    (hid : task.workflowId = w.workflowId) (hover : Overdue task r) : RecoveredLate w r := by
  obtain ⟨hr, ⟨w', hw', hs⟩, -⟩ := hover
  rw [hid] at hw'
  have hww := (hc.stored hw').1
  refine ⟨hr, ⟨w', hw', hs⟩, fun rec hrec hfor => ?_⟩
  obtain ⟨key, hrec⟩ := mem_records.mp hrec
  rw [← recordFor_congr hww] at hfor
  obtain ⟨_, _, -, -, -, -, -, hs'⟩ := recorded_of_recordFor hc hw' hrec hfor
  rcases hs' with hs' | ⟨hs', -⟩ <;> rw [hs] at hs' <;> cases hs'

/-- A completed workflow is returned as it is, and its task acknowledged. -/
theorem run_completed (hc : Consistent env s) (hw : s.stored task.workflowId = some w)
    (ht : Tasked w task) (hs : w.status = .completed) :
    (WorkflowService.executeTask task actor correlationId).run (exec env tid) s =
      (.ok w, { s with taskQueue := s.taskQueue.complete task.taskId }) := by
  have he := (hc.stored hw).2.1.evidence
  rw [Evidence, hs] at he
  obtain ⟨-, -, proposal, result, hp, hx, hd, -⟩ := he
  have hdt : result.proposalDigest = task.proposalDigest := hd.trans (ht.proposalDigest hp).symm
  unfold WorkflowService.executeTask
  rw [run_get, hw]
  dsimp only
  rw [hs, hx]
  dsimp only
  rw [if_neg (by rw [hdt]; simp), run_complete]
  rfl

/-- **Crash recovery.** From any state that interrupted calls can leave behind, a
delivery that runs alone to its end brings the workflow to its end and acknowledges
its task: in time, or already executing, it completes with one record, the old
one if there was one; out of time it expires without a record; already completed
it is returned unchanged. -/
theorem executeTask_recovers (hf : Function.Injective env.idFactory) (hc : Reachable env c)
    {id : String} (hw : c.state.stored id = some w) (hd : Delivers c.state id task)
    (hallowed : (env.policy (executionContext w.processingContext)).executionAllowed = true)
    {r : Except Failure Workflow × State}
    (hr : r = (WorkflowService.executeTask task actor correlationId).run (exec env tid) c.state) :
    (∀ approval, w.status = .approved → w.approvalDecision = some approval →
      c.state.now ≤ approval.expiresAt →
        Recovered c.state w r ∧ task.taskId ∈ r.2.taskQueue.completed) ∧
    (w.status = .executing →
        Recovered c.state w r ∧ task.taskId ∈ r.2.taskQueue.completed) ∧
    (∀ approval, w.status = .approved → w.approvalDecision = some approval →
      approval.expiresAt < c.state.now →
        RecoveredLate w r ∧ task.taskId ∈ r.2.taskQueue.completed) ∧
    (w.status = .completed →
        r.1 = .ok w ∧ r.2.stored id = some w ∧ r.2.records = c.state.records ∧
          task.taskId ∈ r.2.taskQueue.completed) := by
  have h := hc.consistent hf
  have ht := hd.tasked h hw
  obtain rfl := hd.workflowId
  have hid := ht.workflowId
  -- the delivery alone keeps the discipline
  have hv : Verified env tid (.processNextTask (worker actor) correlationId) c.state
      (WorkflowService.executeTask task actor correlationId) [] c.state :=
    verified_executeTask (worker_mayProcess actor) rfl rfl hw ht h
  obtain ⟨hc', he, -⟩ := hv.run h
  rw [← hr] at hc' he
  refine ⟨fun approval hs ha hle => ?_, fun hs => ?_, fun approval hs ha hlt => ?_, fun hs => ?_⟩
  · obtain ⟨proposal, approval', hp, ha', hrun⟩ := run_executeTask h hw ht (by rw [hs]; decide)
    rw [ha] at ha'
    cases ha'
    rw [hrun, if_pos hs] at hr
    have hfin : Finished task r := hr ▸ finished_startExecution h hw hs ht hp ha hle hallowed
    exact ⟨recovered_of_finished hc' he hid hfin, hfin.retired⟩
  · obtain ⟨proposal, approval', hp, ha', hrun⟩ := run_executeTask h hw ht (by rw [hs]; decide)
    rw [hrun, if_neg (by rw [hs]; decide), if_neg (by rw [hs]; decide)] at hr
    have hfin : Finished task r := hr ▸ finished_finishExecution h hw hs ht hp
    exact ⟨recovered_of_finished hc' he hid hfin, hfin.retired⟩
  · obtain ⟨proposal, approval', hp, ha', hrun⟩ := run_executeTask h hw ht (by rw [hs]; decide)
    rw [ha] at ha'
    cases ha'
    rw [hrun, if_pos hs] at hr
    have hover : Overdue task r := hr ▸ overdue_startExecution hw ht hlt _
    exact ⟨recoveredLate_of_overdue hc' hid hover, hover.retired⟩
  · rw [run_completed h hw ht hs] at hr
    rw [hr]
    exact ⟨rfl, hw, rfl, Finset.mem_insert_self _ _⟩

/-- The first delivery of an approved task, stopped after the executor has made
its record. -/
def interruptedRun : List (Move Call (Datetime × Datetime)) := stoppedDelivery ++ [.act 3]

/-- The next delivery completes the workflow with that record. -/
theorem executeTask_recovers_interruptedRun :
    ∃ w task, ((system sampleEnv).play (initial 0 0) interruptedRun).state.stored "w" = some w ∧
      w.status = .executing ∧
      ((system sampleEnv).play (initial 0 0) interruptedRun).state.records.length = 1 ∧
      Recovered ((system sampleEnv).play (initial 0 0) interruptedRun).state w
        ((WorkflowService.executeTask task "local-operator" "c-5").run (exec sampleEnv 4)
          ((system sampleEnv).play (initial 0 0) interruptedRun).state) := by
  have h : ((((system sampleEnv).play (initial 0 0) interruptedRun).state.stored "w").bind fun w =>
      (((system sampleEnv).play (initial 0 0) interruptedRun).state.taskQueue.tasks.get?
        (taskIdOf "w")).map fun t => decide (w.status = .executing ∧ t.workflowId = "w" ∧
          t.taskId = taskIdOf "w" ∧
          t.taskId ∈
            ((system sampleEnv).play (initial 0 0) interruptedRun).state.taskQueue.pending ∧
          ((system sampleEnv).play (initial 0 0) interruptedRun).state.records.length = 1)) =
      some true := by decide +kernel
  obtain ⟨w, hw, h⟩ := Option.bind_eq_some_iff.mp h
  obtain ⟨task, ht, h⟩ := Option.map_eq_some_iff.mp h
  obtain ⟨hs, hid, hk, hp, hrec⟩ := of_decide_eq_true h
  rw [← hk] at ht
  exact ⟨w, task, hw, hs, hrec, ((executeTask_recovers sampleId_injective
    (reachable_play sampleEnv 0 0 interruptedRun) hw ⟨hid, hp, task.deliveryAttempt, ht⟩ rfl
    rfl).2.1 hs).1⟩

end AgenticDelivery.Api
