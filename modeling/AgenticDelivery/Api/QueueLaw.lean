import AgenticDelivery.Api.Adapters

/-! # The law of the task queue

Any calls in any order, on a queue that starts empty. A ledger of the tasks that
were enqueued first for their identifiers, of the deliveries so far and of the
completed identifiers says what the queue holds and what it delivers next. -/
namespace AgenticDelivery.Api
open AgenticDelivery.Data

/-- A call of `InMemoryTaskQueue`. -/
inductive QueueCall
  | enqueue (task : ExecutionTask)
  | claimNext
  | complete (taskId : String)
  deriving DecidableEq

/-- A queue, and the tasks it has delivered. -/
structure QueueRun where
  queue : InMemoryTaskQueue := {}
  deliveries : List ExecutionTask := []

namespace QueueRun

def step (run : QueueRun) : QueueCall → QueueRun
  | .enqueue task => { run with queue := (run.queue.enqueue task).2 }
  | .claimNext =>
    { queue := run.queue.claimNext.2
      deliveries := run.deliveries ++
        match run.queue.claimNext.1 with
        | .ok (some task) => [task]
        | _ => [] }
  | .complete taskId => { run with queue := run.queue.complete taskId }

/-- The calls, one after the other, from the empty queue. -/
def after (calls : List QueueCall) : QueueRun := calls.foldl step {}

/-- How often an identifier has been delivered. -/
def attempts (run : QueueRun) (taskId : String) : Nat :=
  run.deliveries.countP fun task => task.taskId = taskId

@[simp] theorem after_nil : after [] = {} := rfl

@[simp] theorem after_concat (calls : List QueueCall) (call : QueueCall) :
    after (calls ++ [call]) = (after calls).step call := List.foldl_concat ..

end QueueRun

/-! ## The ledger -/

/-- Enter a task, unless its identifier is known. -/
def enterFirst (tasks : List ExecutionTask) : QueueCall → List ExecutionTask
  | .enqueue task => if task.taskId ∈ tasks.map ExecutionTask.taskId then tasks else tasks ++ [task]
  | _ => tasks

/-- The tasks that were enqueued first for their identifiers, in this order. -/
def firstEnqueued (calls : List QueueCall) : List ExecutionTask := calls.foldl enterFirst []

/-- A task after some deliveries. -/
def ExecutionTask.redelivered (task : ExecutionTask) (n : Nat) : ExecutionTask :=
  { task with deliveryAttempt := task.deliveryAttempt + n }

@[simp] theorem ExecutionTask.redelivered_taskId (task : ExecutionTask) (n : Nat) :
    (task.redelivered n).taskId = task.taskId := rfl

/-- What the ledger says of the queue after the calls. -/
structure Represents (calls : List QueueCall) (run : QueueRun) : Prop where
  order : run.queue.order = (firstEnqueued calls).map ExecutionTask.taskId
  keys : run.queue.order = run.queue.tasks.keys
  nodup : run.queue.order.Nodup
  stored : ∀ task ∈ firstEnqueued calls, run.queue.tasks.get? task.taskId =
    some (task.redelivered (run.attempts task.taskId))
  completed : ∀ taskId, taskId ∈ run.queue.completed ↔ .complete taskId ∈ calls
  fresh : ∀ taskId, taskId ∉ run.queue.order → run.attempts taskId = 0

variable {calls more : List QueueCall} {run : QueueRun} {task : ExecutionTask} {taskId : String}

@[simp] theorem firstEnqueued_concat (calls : List QueueCall) (call : QueueCall) :
    firstEnqueued (calls ++ [call]) = enterFirst (firstEnqueued calls) call :=
  List.foldl_concat ..

theorem firstEnqueued_before (calls more : List QueueCall) :
    firstEnqueued calls <+: firstEnqueued (calls ++ more) := by
  induction more using List.reverseRecOn with
  | nil => rw [List.append_nil]
  | append_singleton more call ih =>
    rw [← List.append_assoc, firstEnqueued_concat]
    refine ih.trans ?_
    cases call with
    | enqueue task =>
      rw [enterFirst]
      split
      · exact List.prefix_refl _
      · exact List.prefix_append _ _
    | claimNext => exact List.prefix_refl _
    | complete taskId => exact List.prefix_refl _

/-- Every identifier that was enqueued is in the ledger. -/
theorem taskId_mem_firstEnqueued (h : .enqueue task ∈ calls) :
    task.taskId ∈ (firstEnqueued calls).map ExecutionTask.taskId := by
  obtain ⟨before, later, rfl⟩ := List.append_of_mem h
  have hbefore := firstEnqueued_before (before ++ [.enqueue task]) later
  rw [List.append_assoc, List.singleton_append, firstEnqueued_concat] at hbefore
  refine (hbefore.map _).subset ?_
  rw [enterFirst]
  split
  · assumption
  · simp

/-- What is in the ledger was enqueued. -/
theorem enqueue_mem_of_firstEnqueued (h : task ∈ firstEnqueued calls) :
    .enqueue task ∈ calls := by
  induction calls using List.reverseRecOn with
  | nil => cases h
  | append_singleton calls call ih =>
    rw [firstEnqueued_concat] at h
    rw [List.mem_append, List.mem_singleton]
    cases call with
    | enqueue other =>
      rw [enterFirst] at h
      split at h
      · exact .inl (ih h)
      · rcases List.mem_append.mp h with h | h
        · exact .inl (ih h)
        · rw [List.mem_singleton.mp h]
          exact .inr rfl
    | claimNext => exact .inl (ih h)
    | complete taskId => exact .inl (ih h)

/-! ## The ledger and the queue -/

/-- The first task of the ledger that is not completed. -/
def earliest (calls : List QueueCall) : Option ExecutionTask :=
  (firstEnqueued calls).find? fun task => .complete task.taskId ∉ calls

theorem not_complete_of_earliest (h : earliest calls = some task) :
    .complete task.taskId ∉ calls := by
  have hp := List.find?_some h
  exact of_decide_eq_true hp

namespace Represents

theorem stored_of_mem (h : Represents calls run) (hk : taskId ∈ run.queue.order) :
    ∃ task ∈ firstEnqueued calls, task.taskId = taskId ∧
      run.queue.tasks.get? taskId = some (task.redelivered (run.attempts taskId)) := by
  rw [h.order, List.mem_map] at hk
  obtain ⟨task, ht, rfl⟩ := hk
  exact ⟨task, ht, rfl, h.stored task ht⟩

theorem get?_eq_none (h : Represents calls run) (hk : taskId ∉ run.queue.order) :
    run.queue.tasks.get? taskId = none := by
  rw [Option.eq_none_iff_forall_not_mem]
  intro task ht
  rw [h.keys, Dict.mem_keys_iff] at hk
  exact hk ⟨task, ht⟩

/-- A known identifier is refused or answered, and nothing changes. -/
theorem enqueue_known (h : Represents calls run) {first : ExecutionTask}
    (hf : first ∈ firstEnqueued calls) (hid : first.taskId = task.taskId) :
    run.queue.enqueue task =
      (if first.proposalDigest ≠ task.proposalDigest then
        .error (.application .idempotencyConflict
          "The task identifier is already bound to another proposal.")
      else .ok (first.redelivered (run.attempts task.taskId)), run.queue) := by
  have hget := h.stored first hf
  rw [hid] at hget
  simp only [InMemoryTaskQueue.enqueue, hget]
  by_cases hd : first.proposalDigest ≠ task.proposalDigest
  · rw [if_pos hd]
    exact if_pos hd
  · rw [if_neg hd]
    exact if_neg hd

theorem enqueue_new (h : Represents calls run) (hk : task.taskId ∉ run.queue.order) :
    run.queue.enqueue task = (.ok task,
      { run.queue with
        tasks := run.queue.tasks.set task.taskId task
        order := run.queue.order ++ [task.taskId] }) := by
  simp only [InMemoryTaskQueue.enqueue, h.get?_eq_none hk]

theorem find?_order (h : Represents calls run) :
    run.queue.order.find? (· ∉ run.queue.completed) =
      (earliest calls).map ExecutionTask.taskId := by
  rw [h.order, List.find?_map, earliest]
  congr 2
  funext task
  exact decide_eq_decide.mpr (not_congr (h.completed task.taskId))

/-- **Nothing is delivered when all is completed**, and otherwise the earliest task that
is not, with one more attempt. -/
theorem claimNext (h : Represents calls run) : run.queue.claimNext =
    match earliest calls with
    | none => (.ok none, run.queue)
    | some task =>
      (.ok (some (task.redelivered (run.attempts task.taskId + 1))),
        { run.queue with
          tasks := run.queue.tasks.set task.taskId
            (task.redelivered (run.attempts task.taskId + 1)) }) := by
  rw [InMemoryTaskQueue.claimNext, h.find?_order]
  cases he : earliest calls with
  | none => rfl
  | some task =>
    simp only [Option.map_some, h.stored task (List.mem_of_find?_eq_some he)]
    rfl

/-! ## One call -/

/-- A call that enters nothing and completes nothing is not in the ledger. -/
theorem idle (h : Represents calls run) {call : QueueCall}
    (hf : enterFirst (firstEnqueued calls) call = firstEnqueued calls)
    (hc : ∀ taskId, call ≠ .complete taskId) : Represents (calls ++ [call]) run where
  order := by rw [firstEnqueued_concat, hf, h.order]
  keys := h.keys
  nodup := h.nodup
  stored := by
    rw [firstEnqueued_concat, hf]
    exact h.stored
  completed taskId := by
    rw [h.completed, List.mem_append, List.mem_singleton]
    exact (or_iff_left fun he => hc taskId he.symm).symm
  fresh := h.fresh

/-- The task of a new identifier comes last. -/
theorem enqueue (h : Represents calls run) (task : ExecutionTask) :
    Represents (calls ++ [.enqueue task]) (run.step (.enqueue task)) := by
  rw [QueueRun.step]
  by_cases hk : task.taskId ∈ run.queue.order
  · obtain ⟨first, hf, hid, -⟩ := h.stored_of_mem hk
    rw [h.enqueue_known hf hid]
    rw [h.order] at hk
    exact h.idle (if_pos hk) nofun
  · rw [h.enqueue_new hk]
    have hnew : firstEnqueued (calls ++ [.enqueue task]) = firstEnqueued calls ++ [task] := by
      rw [firstEnqueued_concat, enterFirst, ← h.order, if_neg hk]
    have hkeys : task.taskId ∉ run.queue.tasks.keys := h.keys ▸ hk
    have hapart (first : ExecutionTask) (hf : first ∈ firstEnqueued calls) :
        first.taskId ≠ task.taskId := fun hid =>
      hk (h.order ▸ hid ▸ List.mem_map_of_mem hf)
    exact
      { order := by
          rw [hnew, List.map_append, ← h.order]
          rfl
        keys := by
          rw [Dict.keys_set, if_neg hkeys, ← h.keys]
        nodup := List.nodup_append.mpr ⟨h.nodup, List.nodup_singleton _, fun a ha b hb he =>
          hk (List.mem_singleton.mp hb ▸ he ▸ ha)⟩
        stored := by
          rw [hnew]
          intro first hf
          rcases List.mem_append.mp hf with hf | hf
          · rw [Dict.get?_set_ne _ (hapart first hf)]
            exact h.stored first hf
          · rw [List.mem_singleton.mp hf, Dict.get?_set_self]
            show _ = some (task.redelivered (run.attempts task.taskId))
            rw [h.fresh task.taskId hk]
            rfl
        completed := fun taskId => by
          rw [List.mem_append, List.mem_singleton, ← h.completed]
          exact (or_iff_left nofun).symm
        fresh := fun taskId hm => h.fresh taskId fun hm' => hm (List.mem_append_left _ hm') }

/-- A delivered task has one more attempt. -/
theorem deliver (h : Represents calls run) :
    Represents (calls ++ [.claimNext]) (run.step .claimNext) := by
  rw [QueueRun.step, h.claimNext]
  cases he : earliest calls with
  | none =>
    simp only [List.append_nil]
    exact h.idle rfl nofun
  | some task =>
    have hf := List.mem_of_find?_eq_some he
    have hk : task.taskId ∈ run.queue.order := h.order ▸ List.mem_map_of_mem hf
    have hattempts (taskId : String) :
        ((run.deliveries ++ [task.redelivered (run.attempts task.taskId + 1)]).countP
          fun other => other.taskId = taskId) =
        run.attempts taskId + if task.taskId = taskId then 1 else 0 := by
      rw [List.countP_append, List.countP_singleton]
      exact congrArg (run.attempts taskId + ·) (if_congr decide_eq_true_iff rfl rfl)
    have hsame : firstEnqueued (calls ++ [.claimNext]) = firstEnqueued calls :=
      firstEnqueued_concat calls .claimNext
    exact
      { order := hsame ▸ h.order
        keys := by
          rw [Dict.keys_set, if_pos (h.keys ▸ hk)]
          exact h.keys
        nodup := h.nodup
        stored := by
          rw [hsame]
          intro first hf'
          by_cases hid : first.taskId = task.taskId
          · obtain rfl : first = task := by
              have hnodup := h.nodup
              rw [h.order] at hnodup
              exact List.inj_on_of_nodup_map hnodup hf' hf hid
            rw [Dict.get?_set_self]
            show _ = some (first.redelivered (List.countP _ _))
            rw [hattempts, if_pos rfl]
          · rw [Dict.get?_set_ne _ hid]
            show _ = some (first.redelivered (List.countP _ _))
            rw [hattempts, if_neg (Ne.symm hid)]
            exact h.stored first hf'
        completed := fun taskId => by
          rw [List.mem_append, List.mem_singleton, ← h.completed]
          exact (or_iff_left nofun).symm
        fresh := fun taskId hm => by
          have hne : task.taskId ≠ taskId := fun hid => hm (hid ▸ hk)
          show List.countP _ _ = 0
          rw [hattempts, if_neg hne]
          exact h.fresh taskId hm }

theorem complete (h : Represents calls run) (taskId : String) :
    Represents (calls ++ [.complete taskId]) (run.step (.complete taskId)) where
  order := by
    rw [firstEnqueued_concat]
    exact h.order
  keys := h.keys
  nodup := h.nodup
  stored := by
    rw [firstEnqueued_concat]
    exact h.stored
  completed taskId' := by
    rw [List.mem_append, List.mem_singleton, ← h.completed]
    show taskId' ∈ insert taskId run.queue.completed ↔ _
    rw [Finset.mem_insert, or_comm, QueueCall.complete.injEq]
  fresh := h.fresh

end Represents

/-- **The ledger is right after any calls.** -/
theorem represents_after (calls : List QueueCall) : Represents calls (.after calls) := by
  induction calls using List.reverseRecOn with
  | nil => exact ⟨rfl, rfl, List.nodup_nil, nofun, by simp, fun _ _ => rfl⟩
  | append_singleton calls call ih =>
    rw [QueueRun.after_concat]
    cases call with
    | enqueue task => exact ih.enqueue task
    | claimNext => exact ih.deliver
    | complete taskId => exact ih.complete taskId

/-- What has been delivered stays delivered, and what was completed before is not among
the later deliveries. -/
theorem deliveries_append (calls more : List QueueCall) :
    ∃ later, (QueueRun.after (calls ++ more)).deliveries =
        (QueueRun.after calls).deliveries ++ later ∧
      ∀ task ∈ later, .complete task.taskId ∉ calls := by
  induction more using List.reverseRecOn with
  | nil => exact ⟨[], by simp, nofun⟩
  | append_singleton more call ih =>
    obtain ⟨later, hl, hopen⟩ := ih
    have h := represents_after (calls ++ more)
    rw [← List.append_assoc, QueueRun.after_concat]
    cases call with
    | enqueue task => exact ⟨later, hl, hopen⟩
    | complete taskId => exact ⟨later, hl, hopen⟩
    | claimNext =>
      rw [QueueRun.step, h.claimNext]
      cases he : earliest (calls ++ more) with
      | none => exact ⟨later, by simpa using hl, hopen⟩
      | some task =>
        refine ⟨later ++ [task.redelivered _], by rw [← List.append_assoc, ← hl], ?_⟩
        intro other ho
        rcases List.mem_append.mp ho with ho | ho
        · exact hopen other ho
        · rw [List.mem_singleton.mp ho]
          exact fun hc => not_complete_of_earliest he (List.mem_append_left _ hc)

/-- Nothing is left to deliver when every enqueued identifier has been completed. -/
theorem earliest_eq_none_iff : earliest calls = none ↔
    ∀ task, .enqueue task ∈ calls → .complete task.taskId ∈ calls := by
  rw [earliest, List.find?_eq_none]
  constructor
  · intro h task ht
    obtain ⟨first, hf, hid⟩ := List.mem_map.mp (taskId_mem_firstEnqueued ht)
    rw [← hid]
    exact not_not.mp fun hc => h first hf (decide_eq_true hc)
  · intro h task ht hc
    exact of_decide_eq_true hc (h task (enqueue_mem_of_firstEnqueued ht))

/-- What holds of the queue after any calls. -/
structure QueueLaw (calls : List QueueCall) (run : QueueRun) : Prop where
  nodup : run.queue.order.Nodup
  keys : run.queue.order = run.queue.tasks.keys
  order : run.queue.order = (firstEnqueued calls).map ExecutionTask.taskId
  /-- What is bound to an identifier stays bound to it. -/
  bound : ∀ more taskId task, run.queue.tasks.get? taskId = some task →
    ∃ task', (QueueRun.after (calls ++ more)).queue.tasks.get? taskId = some task' ∧
      task'.proposalDigest = task.proposalDigest ∧ task'.workflowId = task.workflowId ∧
      task'.idempotencyKey = task.idempotencyKey
  drained : run.queue.claimNext.1 = .ok none ↔
    ∀ task, .enqueue task ∈ calls → .complete task.taskId ∈ calls
  /-- Otherwise the earliest task that is not completed is delivered once more. -/
  delivered : run.queue.claimNext.1 = .ok none ∨ ∃ task, earliest calls = some task ∧
    run.queue.claimNext.1 = .ok (some { task with
      deliveryAttempt := task.deliveryAttempt + (run.attempts task.taskId + 1) })
  /-- A completed identifier is never delivered again. -/
  finished : ∀ more, ∃ later,
    (QueueRun.after (calls ++ more)).deliveries = run.deliveries ++ later ∧
      ∀ task ∈ later, .complete task.taskId ∉ calls
  /-- A known identifier is refused or answered, and nothing changes. -/
  known : ∀ task first, first ∈ firstEnqueued calls → first.taskId = task.taskId →
    run.queue.enqueue task =
      (if first.proposalDigest ≠ task.proposalDigest then
        .error (.application .idempotencyConflict
          "The task identifier is already bound to another proposal.")
      else .ok { first with
        deliveryAttempt := first.deliveryAttempt + run.attempts task.taskId }, run.queue)
  /-- Nothing but a known identifier is refused. -/
  refused : ∀ task e, (run.queue.enqueue task).1 = .error e →
    ∃ first ∈ firstEnqueued calls, first.taskId = task.taskId

/-- **The queue law holds after any calls.** -/
theorem queueLaw (calls : List QueueCall) : QueueLaw calls (.after calls) := by
  have h := represents_after calls
  exact
    { nodup := h.nodup
      keys := h.keys
      order := h.order
      bound := by
        intro more taskId task ht
        have hk : taskId ∈ (QueueRun.after calls).queue.order := by
          rw [h.keys, Dict.mem_keys_iff]
          exact ⟨task, ht⟩
        obtain ⟨first, hf, rfl, hget⟩ := h.stored_of_mem hk
        cases ht.symm.trans hget
        have hf' := (firstEnqueued_before calls more).subset hf
        exact ⟨_, (represents_after (calls ++ more)).stored first hf', rfl, rfl, rfl⟩
      drained := by
        rw [← earliest_eq_none_iff, h.claimNext]
        cases earliest calls with
        | none => exact ⟨fun _ => rfl, fun _ => rfl⟩
        | some task => exact ⟨nofun, nofun⟩
      delivered := by
        rw [h.claimNext]
        cases earliest calls with
        | none => exact .inl rfl
        | some task => exact .inr ⟨task, rfl, rfl⟩
      finished := deliveries_append calls
      known := fun task first hf hid => h.enqueue_known hf hid
      refused := by
        intro task e hr
        by_cases hk : task.taskId ∈ (QueueRun.after calls).queue.order
        · obtain ⟨first, hf, hid, -⟩ := h.stored_of_mem hk
          exact ⟨first, hf, hid⟩
        · rw [h.enqueue_new hk] at hr
          cases hr }

end AgenticDelivery.Api
