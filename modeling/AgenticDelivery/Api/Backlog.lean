import AgenticDelivery.Api.Failures

/-! # The backlog of a sequential run

When calls do not overlap, no delivery is ever seen half done: a task that waits
belongs to a workflow that is approved, and every approved workflow has a task
under its identifier. -/
namespace AgenticDelivery.Api
open AgenticDelivery.Atomic AgenticDelivery.Data AgenticDelivery.Governance AgenticDelivery.Runtime

variable {env : Environment} {n : Nat} {s s' : State} {call : Call} {w w' : Workflow}
  {task : ExecutionTask} {clock : Nat → Datetime × Datetime}

/-- Every task that is not completed waits for an approved workflow. -/
def Waiting (s : State) : Prop :=
  ∀ k t, s.taskQueue.tasks.get? k = some t → k ∉ s.taskQueue.completed →
    ∃ w, s.stored t.workflowId = some w ∧ w.status = .approved

/-- Every workflow that was approved has a task under its identifier. -/
def Enlisted (s : State) : Prop :=
  ∀ id w approval, s.stored id = some w → w.approvalDecision = some approval →
    approval.decision = .approved → ∃ t, s.taskQueue.tasks.get? (taskIdOf id) = some t

theorem queueOn_put (s : State) (w : Workflow) (d : Decision) (task : ExecutionTask) :
    (s.put w).queueOn d task = (s.queueOn d task).put w := by
  cases d <;> rfl

/-! ## Tasks that wait -/

namespace Waiting

theorem same (h : Waiting s) (hs : SameStores s s') : Waiting s' := by
  intro k t ht hk
  rw [hs.taskQueue] at ht hk
  rw [State.stored, hs.repository]
  exact h k t ht hk

/-- Stored is an approved workflow, or one that no task waits for. -/
theorem put (h : Waiting s) (hw : ∀ k t, s.taskQueue.tasks.get? k = some t →
    k ∉ s.taskQueue.completed → t.workflowId = w'.workflowId → w'.status = .approved) :
    Waiting (s.put w') := by
  intro k t ht hk
  rw [put_stored]
  split
  · rename_i hid
    exact ⟨w', rfl, hw k t ht hk hid⟩
  · exact h k t ht hk

theorem insert (h : Waiting s) {key : String} (hw : s.stored w.workflowId = none) :
    Waiting (s.insert w key) := by
  intro k t ht hk
  obtain ⟨v, hv, hs⟩ := h k t ht hk
  refine ⟨v, ?_, hs⟩
  rw [insert_stored, if_neg]
  · exact hv
  · intro hid
    rw [hid, hw] at hv
    cases hv

theorem claim (h : Waiting s) {p : Principal} (hnext : NextTask s p task w) :
    Waiting (s.claim task) := by
  obtain ⟨t₀, ht₀, htask⟩ := hnext.queued
  intro k t ht hk
  rw [State.claim, Dict.get?_set] at ht
  split at ht
  · rename_i hkt
    cases ht
    rw [hkt] at hk
    obtain ⟨v, hv, hs⟩ := h _ _ ht₀ hk
    exact ⟨v, by rw [htask]; exact hv, hs⟩
  · exact h k t ht hk

theorem retire (h : Waiting s) (task : ExecutionTask) : Waiting (s.retire task) :=
  fun k t ht hk => h k t ht fun hm => hk (Finset.mem_insert_of_mem hm)

theorem queueOn (h : Waiting s) {d : Decision} (hclear : d = .approved → ¬s.Misbound task)
    (hw : d = .approved → s.taskQueue.tasks.get? task.taskId = none →
      ∃ w, s.stored task.workflowId = some w ∧ w.status = .approved) :
    Waiting (s.queueOn d task) := by
  cases d with
  | rejected => exact h
  | approved =>
    cases ht : s.taskQueue.tasks.get? task.taskId with
    | some t =>
      have hd : t.proposalDigest = task.proposalDigest := by
        by_contra hne
        exact hclear rfl ⟨t, ht, hne⟩
      rw [queueOn_same ht hd]
      exact h
    | none =>
      rw [State.queueOn, enqueue_new ht]
      intro k t hk hc
      rw [Dict.get?_set] at hk
      split at hk
      · cases hk
        exact hw rfl ht
      · exact h k t hk hc

/-- No task waits for a workflow that is not approved. -/
theorem no_task (h : Waiting s) (hw : s.stored w.workflowId = some w)
    (hs : w.status ≠ .approved) {k : String} {t : ExecutionTask}
    (ht : s.taskQueue.tasks.get? k = some t) (hk : k ∉ s.taskQueue.completed) :
    t.workflowId ≠ w.workflowId := by
  intro hid
  obtain ⟨v, hv, hs'⟩ := h k t ht hk
  rw [hid, hw] at hv
  cases hv
  exact hs hs'

end Waiting

/-- Once the task of a delivery is retired, no other task waits for its workflow. -/
theorem NextTask.no_task {p : Principal} (hnext : NextTask s p task w) (hc : Consistent env s)
    {k : String} {t : ExecutionTask} (ht : (s.claim task).taskQueue.tasks.get? k = some t)
    (hk : k ∉ insert task.taskId s.taskQueue.completed) : t.workflowId ≠ w.workflowId := by
  intro hid
  rw [State.claim, Dict.get?_set] at ht
  split at ht
  · rename_i hkt
    exact hk (hkt ▸ Finset.mem_insert_self _ _)
  · obtain ⟨hkt, v, -, htv⟩ := hc.queued ht
    refine hk (Finset.mem_insert.mpr (.inl ?_))
    rw [← hkt, htv.taskId, ← htv.workflowId, hid, hnext.tasked.taskId]

/-- Every end of a call keeps the tasks that wait in order. -/
theorem Waiting.exit {o : Except Failure Workflow} {left : State} {outcomes : List String}
    (hf : Function.Injective env.idFactory) (hc : Consistent env s) (h : Waiting s)
    (he : Enlisted s) (hx : Exit env clock s call o left outcomes) : Waiting left := by
  have delivered : ∀ {p task w w'}, NextTask s p task w → w'.workflowId = w.workflowId →
      Waiting (((s.claim task).retire task).put w') := by
    intro p task w w' hnext hid
    refine ((h.claim hnext).retire task).put fun k t ht hk hkt => ?_
    exact absurd (hkt.trans hid) (hnext.no_task hc ht hk)
  cases hx with
  | created => exact h.insert (hc.fresh hf)
  | planned opened allowed answer hw =>
    obtain ⟨rfl, hl, -⟩ := hc.stored opened.stored
    have hs := hl.received_of_unplanned opened.unplanned
    rw [hw]
    exact h.put fun k t ht hk hid =>
      absurd hid (h.no_task opened.stored (by rw [hs]; decide) ht hk)
  | decisionReplayed closed same decision proposal_ clear =>
    obtain ⟨rfl, -⟩ := hc.stored closed.stored
    refine h.queueOn clear fun hd hn => ?_
    obtain ⟨t, ht⟩ := he _ _ _ closed.stored closed.decided (decision.trans hd)
    cases hn.symm.trans ht
  | proposalExpired opened late =>
    obtain ⟨rfl, -⟩ := hc.stored opened.stored
    exact h.put fun k t ht hk hid =>
      absurd hid (h.no_task opened.stored (by rw [opened.status]; decide) ht hk)
  | decided opened inTime clear hw =>
    obtain ⟨rfl, -⟩ := hc.stored opened.stored
    subst hw
    refine Waiting.queueOn (h.put fun k t ht hk hid => ?_) clear fun hd _ =>
      ⟨_, put_stored_self s _, by rw [hd]; rfl⟩
    exact absurd hid (h.no_task opened.stored (by rw [opened.status]; decide) ht hk)
  | decidedMisbound opened inTime misbound hw =>
    obtain ⟨rfl, -⟩ := hc.stored opened.stored
    subst hw
    exact h.put fun k t ht hk hid =>
      absurd hid (h.no_task opened.stored (by rw [opened.status]; decide) ht hk)
  | redelivered next status => exact (h.claim next).retire _
  | deliveredStale next status => exact h.claim next
  | approvalExpired next => exact delivered next rfl
  | executionRefused next => exact h.claim next
  | @executed p _ task w _ proposal next _ _ _ _ _ w' _ w'' hw _ completed =>
    have hid : w''.workflowId = w.workflowId :=
      (completeExecution_workflowId completed).trans (by rw [hw]; rfl)
    have h' : Waiting ((((s.claim task).retire task).put w').ticket task proposal (clock 2).1) :=
      delivered next (by rw [hw]; rfl)
    change Waiting (((((s.claim task).retire task).put w').ticket task proposal (clock 2).1).put
      w'')
    refine h'.put fun k t ht hk hkt => ?_
    exact absurd (hkt.trans hid) (next.no_task hc ht hk)
  | resumed next _ _ _ completed => exact delivered next (completeExecution_workflowId completed)
  | _ => exact h

/-! ## Approved workflows have tasks -/

namespace Enlisted

theorem same (h : Enlisted s) (hs : SameStores s s') : Enlisted s' := by
  intro id w approval hw ha hd
  rw [State.stored, hs.repository] at hw
  rw [hs.taskQueue]
  exact h id w approval hw ha hd

/-- Stored is a workflow that was not approved, or one with a task. -/
theorem put (h : Enlisted s) (hw : ∀ approval, w'.approvalDecision = some approval →
    approval.decision = .approved → ∃ t, s.taskQueue.tasks.get? (taskIdOf w'.workflowId) = some t) :
    Enlisted (s.put w') := by
  intro id v approval hv ha hd
  rw [put_stored] at hv
  split at hv
  · rename_i hid
    cases hv
    rw [hid]
    exact hw approval ha hd
  · exact h id v approval hv ha hd

theorem insert (h : Enlisted s) {key : String} (hw : w.approvalDecision = none) :
    Enlisted (s.insert w key) := by
  intro id v approval hv ha hd
  rw [insert_stored] at hv
  split at hv
  · cases hv
    rw [hw] at ha
    cases ha
  · exact h id v approval hv ha hd

theorem claim (h : Enlisted s) (task : ExecutionTask) : Enlisted (s.claim task) := by
  intro id v approval hv ha hd
  obtain ⟨t, ht⟩ := h id v approval hv ha hd
  rw [State.claim, Dict.get?_set]
  split
  · exact ⟨task, rfl⟩
  · exact ⟨t, ht⟩

theorem queueOn (h : Enlisted s) {d : Decision} (hclear : d = .approved → ¬s.Misbound task) :
    Enlisted (s.queueOn d task) := by
  cases d with
  | rejected => exact h
  | approved =>
    cases ht : s.taskQueue.tasks.get? task.taskId with
    | some t =>
      have hd : t.proposalDigest = task.proposalDigest := by
        by_contra hne
        exact hclear rfl ⟨t, ht, hne⟩
      rw [queueOn_same ht hd]
      exact h
    | none =>
      rw [State.queueOn, enqueue_new ht]
      exact h.claim task

end Enlisted

/-- Every end of a call leaves a task to every approved workflow. -/
theorem Enlisted.exit {o : Except Failure Workflow} {left : State} {outcomes : List String}
    (hc : Consistent env s) (h : Enlisted s) (hx : Exit env clock s call o left outcomes) :
    Enlisted left := by
  have delivered : ∀ {p task w w'}, NextTask s p task w → w'.workflowId = w.workflowId →
      Enlisted ((s.claim task).put w') := by
    intro p task w w' hnext hid
    refine (h.claim task).put fun _ _ _ => ⟨task, ?_⟩
    rw [hid, ← hnext.tasked.taskId, State.claim, Dict.get?_set_self]
  cases hx with
  | created => exact h.insert rfl
  | planned opened allowed answer hw =>
    obtain ⟨rfl, -⟩ := hc.stored opened.stored
    rw [hw]
    exact h.put fun approval ha hd => h _ _ approval opened.stored ha hd
  | decisionReplayed closed same decision proposal_ clear => exact h.queueOn clear
  | proposalExpired opened late =>
    obtain ⟨rfl, -⟩ := hc.stored opened.stored
    exact h.put fun approval ha hd => h _ _ approval opened.stored ha hd
  | decided opened inTime clear hw =>
    subst hw
    rw [queueOn_put]
    refine (h.queueOn clear).put fun approval ha hd => ?_
    cases ha
    obtain rfl : _ = Decision.approved := hd
    obtain ⟨t, ht, -⟩ := queueOn_clear (clear rfl)
    exact ⟨t, ht⟩
  | decidedMisbound opened inTime misbound hw =>
    obtain ⟨t, ht, -⟩ := misbound
    rw [hw]
    exact h.put fun _ _ _ => ⟨t, ht⟩
  | redelivered => exact h.claim _
  | deliveredStale => exact h.claim _
  | approvalExpired next => exact delivered next rfl
  | executionRefused => exact h.claim _
  | @executed p _ task w _ proposal next _ _ _ _ _ w' _ w'' hw _ completed =>
    have hid : w'.workflowId = w.workflowId := by rw [hw]; rfl
    have h' : Enlisted (((s.claim task).put w').ticket task proposal (clock 2).1) :=
      delivered next hid
    change Enlisted ((((s.claim task).put w').ticket task proposal (clock 2).1).put w'')
    refine h'.put fun _ _ _ => ⟨task, ?_⟩
    rw [completeExecution_workflowId completed, hid, ← next.tasked.taskId]
    exact Dict.get?_set_self ..
  | resumed next _ _ _ completed => exact delivered next (completeExecution_workflowId completed)
  | _ => exact h

/-- **The backlog of a sequential run.** -/
theorem Sequential.backlog (hf : Function.Injective env.idFactory) (h : Sequential env n s) :
    Waiting s ∧ Enlisted s := by
  obtain ⟨now, utc, h⟩ := h
  induction h with
  | refl => exact ⟨fun k t ht => (by cases ht), fun id w a hw => (by cases hw)⟩
  | @call n' s' h call clock ih =>
    obtain ⟨hw, he⟩ := ih
    have hseq : Sequential env n' s' := ⟨now, utc, h⟩
    obtain ⟨left, outcomes, hx, hs, -⟩ := hseq.ends hf call clock
    exact ⟨(hw.exit hf (hseq.consistent hf) he hx).same hs,
      (he.exit (hseq.consistent hf) hx).same hs⟩
  | tick _ t ih => exact ih

end AgenticDelivery.Api
