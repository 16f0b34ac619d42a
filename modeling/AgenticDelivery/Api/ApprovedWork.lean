import AgenticDelivery.Api.Recovery

/-! # Approved work

Between the stored approval and the queue there is no transaction. An approval
that was returned has its task in the queue, and no task is retired before its
workflow has ended; a replay of the approval restores a task that was never
enqueued. -/
namespace AgenticDelivery.Api
open AgenticDelivery.Atomic AgenticDelivery.Data AgenticDelivery.Governance AgenticDelivery.Runtime
open Service Program

variable {env : Environment} {c c' : PoolConfig} {tid : Nat} {s : State} {w : Workflow}
  {task : ExecutionTask} {principal : Principal} {id key : String}

/-- The truncated hashes of the stored workflows do not collide. -/
def TaskIdsDistinct (s : State) : Prop :=
  ∀ id id' w w', s.stored id = some w → s.stored id' = some w' → taskIdOf id = taskIdOf id' →
    id = id'

/-- The task of the workflow waits in the queue, so that `claim_next` delivers
the first of the tasks that wait, this one or another. -/
structure AwaitsDelivery (env : Environment) (s : State) (id : String) (w : Workflow) : Prop where
  order : taskIdOf id ∈ s.taskQueue.order
  unretired : taskIdOf id ∉ s.taskQueue.completed
  queued : ∃ t, t.taskId = taskIdOf id ∧ Delivers s id t ∧ Tasked w t
  claimed : ∀ tid, ∃ t, (exec env tid .claimNext s).1 = .ok (some t) ∧
    s.taskQueue.pending.head? = some t.taskId

/-- The task under the id of a stored workflow is its own. -/
theorem tasked_of_taskIdOf (hc : Consistent env s) (hd : TaskIdsDistinct s)
    (hw : s.stored id = some w) (ht : s.taskQueue.tasks.get? (taskIdOf id) = some task) :
    task.taskId = taskIdOf id ∧ task.workflowId = id ∧ Tasked w task := by
  obtain ⟨hk, v, hv, htv⟩ := hc.queued ht
  have hid : task.workflowId = id := by
    refine hd _ _ v w hv hw ?_
    rw [← hk, htv.taskId, htv.workflowId]
  rw [hid, hw] at hv
  cases hv
  exact ⟨hk, hid, htv⟩

/-- **No task is retired early**: while its workflow is approved or executing, an
enqueued task waits for its delivery. -/
theorem awaitsDelivery_of_mem_order (hc : Consistent env s) (hd : TaskIdsDistinct s)
    (hw : s.stored id = some w) (hs : w.status = .approved ∨ w.status = .executing)
    (hm : taskIdOf id ∈ s.taskQueue.order) : AwaitsDelivery env s id w := by
  have hopen : taskIdOf id ∉ s.taskQueue.completed := by
    intro hk
    obtain ⟨id', w', hid, hw', hs'⟩ := hc.retired hk
    obtain rfl := hd _ _ w w' hw hw' hid
    rw [hw] at hw'
    cases hw'
    rcases hs with hs | hs <;> rw [hs] at hs' <;> rcases hs' with hs' | hs' <;> cases hs'
  have hp : taskIdOf id ∈ s.taskQueue.pending :=
    List.mem_filter.mpr ⟨hm, decide_eq_true hopen⟩
  obtain ⟨t, ht⟩ := (hc.mem_order _).mp hm
  obtain ⟨hk, hid, htw⟩ := tasked_of_taskIdOf hc hd hw ht
  rw [← hk] at hp ht
  refine ⟨hm, hopen, ⟨t, hk, ⟨hid, hp, t.deliveryAttempt, ht⟩, htw⟩, fun tid => ?_⟩
  rcases claimNext_cases hc tid with ⟨he, -⟩ | ⟨k, t, t', hh, ht', rfl, he⟩
  · rw [he] at hp
    cases hp
  · exact ⟨_, by rw [he], by rw [hh]; exact congrArg some (hc.queued ht').1.symm⟩

/-! ## The replay of an approval -/

/-- The queue takes the task of a stored workflow, new or not. -/
theorem run_enqueue (hc : Consistent env s) (hd : TaskIdsDistinct s)
    (hw : s.stored task.workflowId = some w) (ht : Tasked w task) (tid : Nat) :
    ∃ t s', (∀ f : ExecutionTask → Service Workflow,
        (enqueue task >>= f).run (exec env tid) s = (f t).run (exec env tid) s') ∧
      s' = (exec env tid (.enqueue task) s).2 ∧ s'.repository = s.repository ∧
      s'.taskQueue.completed = s.taskQueue.completed := by
  have hid : taskIdOf task.workflowId = task.taskId := by rw [ht.taskId, ht.workflowId]
  have hok : ∃ t, (exec env tid (.enqueue task) s).1 = .ok t ∧
      (exec env tid (.enqueue task) s).2.taskQueue.completed = s.taskQueue.completed := by
    cases he : s.taskQueue.tasks.get? task.taskId with
    | none => exact ⟨task, by simp only [exec, InMemoryTaskQueue.enqueue, he, and_self]⟩
    | some existing =>
      obtain ⟨-, -, ht'⟩ := tasked_of_taskIdOf hc hd hw (by rw [hid]; exact he)
      obtain ⟨proposal, _, hp, -⟩ := id ht
      have hdig : existing.proposalDigest = task.proposalDigest :=
        (ht'.proposalDigest hp).trans (ht.proposalDigest hp).symm
      refine ⟨existing, ?_⟩
      simp only [exec, InMemoryTaskQueue.enqueue, he, hdig, ne_eq, not_true_eq_false, if_false,
        and_self]
  obtain ⟨t, he, hcomp⟩ := hok
  exact ⟨t, _, run_perform (g := orRaise) (Prod.ext he rfl) rfl, rfl, rfl, hcomp⟩

/-- The replay of an approval that runs alone returns the workflow, and afterwards
its task is in the order. -/
theorem run_replay (hc : Consistent env s) (hd : TaskIdsDistinct s) (hw : s.stored id = some w)
    (hmay : principal.MayDecide w) {approval : ApprovalDecision}
    (ha : w.approvalDecision = some approval) (hdec : approval.decision = .approved)
    (hkey : approval.idempotencyKey = key) (tid : Nat) (reason correlationId : String) :
    ∃ s', (WorkflowService.decideApproval principal id .approved reason key correlationId).run
        (exec env tid) s = (.ok w, s') ∧
      Consistent env s' ∧ s'.repository = s.repository ∧
      s'.taskQueue.completed = s.taskQueue.completed ∧ taskIdOf id ∈ s'.taskQueue.order := by
  obtain ⟨rfl, hl, -⟩ := hc.stored hw
  obtain ⟨_, _, proposal, _, _, _, _, hp, -⟩ := hl.decided ha
  have ht := tasked_create hp ha hdec
  obtain ⟨t, s', hrun, hs', hrep, hcomp⟩ := run_enqueue hc hd hw ht tid
  refine ⟨s', ?_, ?_, hrep, hcomp, ?_⟩
  · unfold WorkflowService.decideApproval
    rw [if_neg hmay.1, run_get, hw]
    dsimp only
    rw [if_neg hmay.2, ha]
    dsimp only
    rw [WorkflowService.replayDecision, if_neg (not_not.mpr hkey), if_neg (not_not.mpr hdec), hp]
    simp only [WorkflowService.enqueueApproved, Program.bind_assoc, pure_eq, done_bind]
    rw [hrun]
    rfl
  · have hk : (discipline env).Kept tid s _ := kept_enqueue hc hw ht
    rw [hs']
    exact hk.inv
  · rw [hs']
    exact enqueue_mem hc tid _

/-- A call that approves the workflow has returned, as its first decision or a replay. -/
def ApprovalReturned (c : PoolConfig) (id : String) : Prop :=
  ∃ (tid : Nat) (t : Caller) (principal : Principal) (reason key correlationId : String)
    (w : Workflow), c.threads[tid]? = some t ∧
      t.call = .decideApproval principal id .approved reason key correlationId ∧
      t.rest.outcome = some (.ok w)

/-- **Approved work is neither lost nor retired early.** Once a call that approves a
workflow has returned, the task of the workflow waits for its delivery as long as
the workflow is approved or executing. A replay with the key of the approval
returns, and restores the task if it was never enqueued; it retires and reopens
nothing, and no run reopens a task. -/
theorem approved_awaitsDelivery (hf : Function.Injective env.idFactory) (hc : Reachable env c)
    (hd : TaskIdsDistinct c.state) :
    (∀ id w, ApprovalReturned c id → c.state.stored id = some w →
      w.status = .approved ∨ w.status = .executing → AwaitsDelivery env c.state id w) ∧
    (∀ tid principal id reason key correlationId w approval s' outcome,
      c.state.stored id = some w → principal.MayDecide w → w.approvalDecision = some approval →
      approval.decision = .approved → approval.idempotencyKey = key →
      (WorkflowService.decideApproval principal id .approved reason key correlationId).run
        (exec env tid) c.state = (outcome, s') →
      outcome = .ok w ∧ s'.repository = c.state.repository ∧
        s'.taskQueue.completed = c.state.taskQueue.completed ∧
        (w.status = .approved ∨ w.status = .executing → AwaitsDelivery env s' id w)) ∧
    ∀ c', (system env).Reaches c c' →
      c.state.taskQueue.completed ⊆ c'.state.taskQueue.completed := by
  have h := hc.consistent hf
  refine ⟨?_, ?_, fun c' hr => (hc.evolve hf hr).completed⟩
  · rintro id w ⟨tid, t, principal, reason, key, correlationId, w₁, ht, hcall, hok⟩ hw hs
    have hp := (hc.safeAt hf).post ht hok
    rw [hcall] at hp
    obtain ⟨_, _, -, -, -, -, -, -, -, -, -, hm⟩ := hp
    exact awaitsDelivery_of_mem_order h hd hw hs (hm rfl)
  · intro tid principal id reason key correlationId w approval s' outcome hw hmay ha hdec hkey hrun
    obtain ⟨s₁, hrun₁, hc', hrep, hcomp, hm⟩ :=
      run_replay h hd hw hmay ha hdec hkey tid reason correlationId
    rw [hrun] at hrun₁
    obtain ⟨rfl, rfl⟩ := Prod.mk.inj hrun₁
    have hst : s'.stored = c.state.stored := by funext id; rw [State.stored, hrep]
    refine ⟨rfl, hrep, hcomp, fun hs => awaitsDelivery_of_mem_order hc' ?_ ?_ hs hm⟩
    · rw [TaskIdsDistinct, hst]
      exact hd
    · rw [hst]
      exact hw

/-- The decision of the reviewer, stopped between the repository and the queue. -/
def stoppedDecision : List (Move Call (Datetime × Datetime)) :=
  moves 0 (.create sampleRequest) 8 ++ moves 1 (.plan localRequester "w" "c-2") 8 ++
    moves 2 (.decideApproval localReviewer "w" .approved "reviewed" "key-2" "c-3") 3

/-- The reviewer sends the decision again. -/
def restoredRun : List (Move Call (Datetime × Datetime)) :=
  stoppedDecision ++
    moves 3 (.decideApproval localReviewer "w" .approved "reviewed" "key-2" "c-3") 2

theorem taskIdsDistinct_of_keys {k : String}
    (h : s.repository.workflows.entries.map Prod.fst = [k]) : TaskIdsDistinct s := by
  have hk : ∀ id w, s.stored id = some w → id = k := by
    intro id w hw
    have hm := List.mem_map_of_mem (f := Prod.fst)
      (s.repository.workflows.get?_eq_some_iff.mp hw)
    rw [h] at hm
    exact List.mem_singleton.mp hm
  intro id id' w w' hw hw' _
  rw [hk id w hw, hk id' w' hw']

/-- The stopped decision left nothing in the queue; after the second one the task
waits. -/
theorem approved_awaitsDelivery_restoredRun :
    ((system sampleEnv).play (initial 0 0) stoppedDecision).state.taskQueue.order = [] ∧
    ∃ w, ((system sampleEnv).play (initial 0 0) restoredRun).state.stored "w" = some w ∧
      w.status = .approved ∧
      AwaitsDelivery sampleEnv ((system sampleEnv).play (initial 0 0) restoredRun).state "w" w := by
  refine ⟨by decide, ?_⟩
  have h : (((system sampleEnv).play (initial 0 0) restoredRun).threads[3]?.bind fun t =>
      t.rest.returned.bind fun _ =>
        (((system sampleEnv).play (initial 0 0) restoredRun).state.stored "w").map fun w =>
          decide (t.call = .decideApproval localReviewer "w" .approved "reviewed" "key-2" "c-3" ∧
            w.status = .approved ∧
            ((system sampleEnv).play (initial 0 0)
              restoredRun).state.repository.workflows.entries.map Prod.fst = ["w"])) =
      some true := by decide
  obtain ⟨t, ht, h⟩ := Option.bind_eq_some_iff.mp h
  obtain ⟨w₁, hw₁, h⟩ := Option.bind_eq_some_iff.mp h
  obtain ⟨w, hw, h⟩ := Option.map_eq_some_iff.mp h
  obtain ⟨hcall, hs, hkeys⟩ := of_decide_eq_true h
  refine ⟨w, hw, hs, (approved_awaitsDelivery sampleId_injective
    (reachable_play sampleEnv 0 0 restoredRun) (taskIdsDistinct_of_keys hkeys)).1 "w" w
      ⟨3, t, _, _, _, _, w₁, ht, hcall, ?_⟩ hw (.inl hs)⟩
  exact Program.outcome_of_returned hw₁

end AgenticDelivery.Api
