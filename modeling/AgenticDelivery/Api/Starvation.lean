import AgenticDelivery.Api.Failures
import AgenticDelivery.Api.Backlog

/-! # Starvation

`claim_next` always hands out the oldest task that is not completed. A delivery
that is denied by the policy leaves its task in front, so the tasks behind it are
reached only when every earlier delivery takes its own task out of the queue. -/
namespace AgenticDelivery.Api
open AgenticDelivery.Atomic AgenticDelivery.Data AgenticDelivery.Governance AgenticDelivery.Runtime

variable {env : Environment} {n : Nat} {s s' : State} {p : Principal} {k : String}
  {rest : List String} {clock : Nat → Datetime × Datetime}

/-- Consecutive `process_next_task` calls of one principal: the state after them. -/
def deliveries (env : Environment) (p : Principal) :
    Nat → (Nat → String) → (Nat → Nat → Datetime × Datetime) → Nat → State → State
  | 0, _, _, _, s => s
  | calls + 1, correlationIds, clocks, n, s =>
    deliveries env p calls (fun j => correlationIds (j + 1)) (fun j => clocks (j + 1)) (n + 1)
      (answer env n s (.processNextTask p (correlationIds 0)) (clocks 0)).2

/-- Between `s` and `s'` the task was delivered. -/
def Delivered (s s' : State) (k : String) : Prop :=
  ∃ t t', s.taskQueue.tasks.get? k = some t ∧ s'.taskQueue.tasks.get? k = some t' ∧
    t.deliveryAttempt < t'.deliveryAttempt

/-- A delivery of the task at the time `now` takes it out of the queue: the approval of
its workflow has expired, or the policy allows the tool. -/
def Retires (env : Environment) (s : State) (k : String) (now : Datetime) : Prop :=
  ∃ t w approval, s.taskQueue.tasks.get? k = some t ∧ s.stored t.workflowId = some w ∧
    w.approvalDecision = some approval ∧ (approval.expiresAt < now ∨
      (env.policy (executionContext w.processingContext)).executionAllowed = true)

/-! ## One delivery -/

theorem pending_nodup (hc : Consistent env s) : s.taskQueue.pending.Nodup :=
  hc.order.sublist List.filter_sublist

/-- The queue when its oldest task is completed. -/
theorem pending_insert (hn : s.taskQueue.pending.Nodup) (hp : s.taskQueue.pending = k :: rest)
    {q : Api.InMemoryTaskQueue} (ho : q.order = s.taskQueue.order)
    (hk : q.completed = insert k s.taskQueue.completed) : q.pending = rest := by
  have hfilter : q.pending = s.taskQueue.pending.filter (· ≠ k) := by
    rw [InMemoryTaskQueue.pending, InMemoryTaskQueue.pending, List.filter_filter, ho, hk]
    refine List.filter_congr fun x _ => ?_
    simp [not_or]
  rw [hp] at hn
  rw [hfilter, hp, List.filter_cons_of_neg (by simp)]
  refine List.filter_eq_self.mpr fun x hx => decide_eq_true fun he => ?_
  exact (List.nodup_cons.mp hn).1 (he ▸ hx)

/-- The next task is the oldest one, and its workflow is approved. -/
theorem NextTask.oldest (hf : Function.Injective env.idFactory) (h : Sequential env n s)
    (hpend : s.taskQueue.pending = k :: rest) {task : ExecutionTask} {w : Workflow}
    (next : NextTask s p task w) : ∃ t, task.taskId = k ∧ s.taskQueue.tasks.get? k = some t ∧
      task = { t with deliveryAttempt := t.deliveryAttempt + 1 } ∧
      s.stored t.workflowId = some w ∧ w.workflowId = t.workflowId ∧ w.status = .approved := by
  obtain ⟨hwait, -⟩ := h.backlog hf
  have hk : task.taskId = k := by
    have hh := next.head
    rw [hpend] at hh
    exact (Option.some.inj hh).symm
  obtain ⟨t, ht, htask⟩ := next.queued
  rw [hk] at ht
  have hw : s.stored t.workflowId = some w := by
    rw [← next.stored, htask]
  have hopen : k ∉ s.taskQueue.completed := by
    have hm : k ∈ s.taskQueue.pending := by rw [hpend]; exact .head _
    exact of_decide_eq_true (List.mem_filter.mp hm).2
  obtain ⟨v, hv, hst⟩ := hwait k t ht hopen
  cases hw.symm.trans hv
  exact ⟨t, hk, ht, htask, hw, ((h.consistent hf).stored hw).1, hst⟩

/-- What a delivery does to the queue and the workflows: the oldest task has one more
attempt, and leaves the queue or stays in front. -/
theorem delivery_step (hf : Function.Injective env.idFactory) (h : Sequential env n s)
    (hmay : p.MayProcess) (hpend : s.taskQueue.pending = k :: rest) (correlationId : String)
    (hs' : s' = (answer env n s (.processNextTask p correlationId) clock).2) :
    ∃ t, s.taskQueue.tasks.get? k = some t ∧
      s'.taskQueue.tasks =
        s.taskQueue.tasks.set k { t with deliveryAttempt := t.deliveryAttempt + 1 } ∧
      ((Retires env s k (clock 2).1 ∧ s'.taskQueue.pending = rest ∧
          ∀ id, id ≠ t.workflowId → s'.stored id = s.stored id) ∨
        (¬Retires env s k (clock 2).1 ∧ s'.taskQueue.pending = k :: rest ∧
          ∀ id, s'.stored id = s.stored id)) := by
  have hn := pending_nodup (h.consistent hf)
  obtain ⟨left, outcomes, hx, hs, -⟩ := h.ends hf (.processNextTask p correlationId) clock
  rw [← hs'] at hs
  generalize (answer env n s (.processNextTask p correlationId) clock).1 = o at hx
  obtain ⟨hr, hq, -⟩ := hs
  cases hx with
  | processDenied role => exact absurd hmay role
  | nothingPending may empty => rw [empty] at hpend; cases hpend
  | redelivered next status =>
    obtain ⟨_, -, -, -, -, -, hst⟩ := next.oldest hf h hpend
    exact absurd (status.symm.trans hst) (by decide)
  | deliveredStale next status =>
    obtain ⟨_, -, -, -, -, -, hst⟩ := next.oldest hf h hpend
    exact absurd (status.symm.trans hst) (by decide)
  | resumed next status =>
    obtain ⟨_, -, -, -, -, -, hst⟩ := next.oldest hf h hpend
    exact absurd (status.symm.trans hst) (by decide)
  | approvalExpired next status approval_ late =>
    obtain ⟨t, rfl, ht, htask, hw, hid, -⟩ := next.oldest hf h hpend
    refine ⟨t, ht, by rw [hq, ← htask]; rfl, .inl ⟨⟨t, _, _, ht, hw, approval_, .inl late⟩,
      pending_insert hn hpend (by rw [hq]; rfl) (by rw [hq]; rfl), fun id hne => ?_⟩⟩
    rw [State.stored, hr]
    exact (put_stored ..).trans (if_neg (by rw [← hid] at hne; exact hne))
  | executionRefused next status approval_ inTime refused =>
    obtain ⟨t, rfl, ht, htask, hw, hid, -⟩ := next.oldest hf h hpend
    refine ⟨t, ht, by rw [hq, ← htask]; rfl, .inr ⟨?_, by rw [hq]; exact hpend, fun id => ?_⟩⟩
    · rintro ⟨t', w', approval', ht', hw', ha', hlate | hallowed⟩
      · cases ht.symm.trans ht'
        cases hw.symm.trans hw'
        cases approval_.symm.trans ha'
        exact absurd hlate (not_lt.mpr inTime)
      · cases ht.symm.trans ht'
        cases hw.symm.trans hw'
        exact absurd (refused.symm.trans hallowed) (by decide)
    · rw [State.stored, hr]
      rfl
  | executed next status approval_ inTime allowed proposal_ started ticket completed =>
    obtain ⟨t, rfl, ht, htask, hw, hid, -⟩ := next.oldest hf h hpend
    have hid₁ := completeExecution_workflowId completed
    have hid₂ : _ = t.workflowId := (congrArg Workflow.workflowId started).trans hid
    refine ⟨t, ht, by rw [hq, ← htask]; rfl, .inl ⟨⟨t, _, _, ht, hw, approval_, .inr allowed⟩,
      pending_insert hn hpend (by rw [hq]; rfl) (by rw [hq]; rfl), fun id hne => ?_⟩⟩
    rw [State.stored, hr]
    refine (put_stored ..).trans ((if_neg ?_).trans ((put_stored ..).trans (if_neg ?_)))
    · rw [hid₁, hid₂]
      exact hne
    · rw [hid₂]
      exact hne

section Step
variable {correlationId k' : String}

theorem delivery_delivers (hf : Function.Injective env.idFactory) (h : Sequential env n s)
    (hmay : p.MayProcess) (hpend : s.taskQueue.pending = k :: rest)
    (hs' : s' = (answer env n s (.processNextTask p correlationId) clock).2) :
    Delivered s s' k := by
  obtain ⟨t, ht, htasks, -⟩ := delivery_step hf h hmay hpend correlationId hs'
  exact ⟨t, _, ht, by rw [htasks, Dict.get?_set_self], Nat.lt_succ_self _⟩

/-- The other tasks are as they were. -/
theorem delivery_other (hf : Function.Injective env.idFactory) (h : Sequential env n s)
    (hmay : p.MayProcess) (hpend : s.taskQueue.pending = k :: rest)
    (hs' : s' = (answer env n s (.processNextTask p correlationId) clock).2) (hne : k' ≠ k) :
    s'.taskQueue.tasks.get? k' = s.taskQueue.tasks.get? k' := by
  obtain ⟨t, -, htasks, -⟩ := delivery_step hf h hmay hpend correlationId hs'
  rw [htasks, Dict.get?_set_ne _ hne]

/-- What a delivery of another task would do is as it was. -/
theorem delivery_retires (hf : Function.Injective env.idFactory) (h : Sequential env n s)
    (hmay : p.MayProcess) (hpend : s.taskQueue.pending = k :: rest)
    (hs' : s' = (answer env n s (.processNextTask p correlationId) clock).2) (hne : k' ≠ k)
    (now : Datetime) : Retires env s' k' now ↔ Retires env s k' now := by
  have hc := h.consistent hf
  obtain ⟨t, ht, -, hst⟩ := delivery_step hf h hmay hpend correlationId hs'
  have hother := delivery_other hf h hmay hpend hs' hne
  have hsame : ∀ t', s.taskQueue.tasks.get? k' = some t' →
      s'.stored t'.workflowId = s.stored t'.workflowId := by
    intro t' ht'
    rcases hst with ⟨-, -, hst⟩ | ⟨-, -, hst⟩
    · refine hst _ fun hid => hne ?_
      obtain ⟨hk, _, -, htw⟩ := hc.queued ht
      obtain ⟨hk', _, -, htw'⟩ := hc.queued ht'
      rw [← hk, ← hk', htw.taskId, htw'.taskId, ← htw.workflowId, ← htw'.workflowId, hid]
    · exact hst _
  refine exists_congr fun t' => exists₂_congr fun w a => ?_
  rw [hother]
  refine and_congr_right fun ht' => ?_
  rw [hsame t' ht']

end Step

/-- Without a task that waits, a delivery leaves the queue alone. -/
theorem delivery_idle (hf : Function.Injective env.idFactory) (h : Sequential env n s)
    (hmay : p.MayProcess) (hpend : s.taskQueue.pending = []) (correlationId : String) :
    (answer env n s (.processNextTask p correlationId) clock).2.taskQueue = s.taskQueue := by
  obtain ⟨left, outcomes, hx, hs, -⟩ := h.ends hf (.processNextTask p correlationId) clock
  have empty : ∀ {task w}, NextTask s p task w → False := by
    intro task w next
    cases hpend ▸ next.head
  rw [hs.taskQueue]
  generalize (answer env n s (.processNextTask p correlationId) clock).1 = o at hx
  cases hx with
  | processDenied role => exact absurd hmay role
  | nothingPending => rfl
  | redelivered next => exact (empty next).elim
  | deliveredStale next => exact (empty next).elim
  | approvalExpired next => exact (empty next).elim
  | executionRefused next => exact (empty next).elim
  | executed next => exact (empty next).elim
  | resumed next => exact (empty next).elim

/-! ## Many deliveries -/

/-- A task that is not among the first ones is not delivered by as many calls. -/
theorem deliveries_untouched (hf : Function.Injective env.idFactory) (hmay : p.MayProcess) :
    ∀ (calls : Nat) (correlationIds : Nat → String) (clocks : Nat → Nat → Datetime × Datetime)
      (n : Nat) (s : State), Sequential env n s → k ∉ s.taskQueue.pending.take calls →
      (deliveries env p calls correlationIds clocks n s).taskQueue.tasks.get? k =
        s.taskQueue.tasks.get? k
  | 0, _, _, _, _, _, _ => rfl
  | calls + 1, correlationIds, clocks, n, s, h, hk => by
    have h' := h.after (.processNextTask p (correlationIds 0)) (clocks 0)
    rw [deliveries]
    generalize hs' : (answer env n s (.processNextTask p (correlationIds 0)) (clocks 0)).2 = s'
      at h' ⊢
    cases hpend : s.taskQueue.pending with
    | nil =>
      have hq : s'.taskQueue = s.taskQueue := by
        rw [← hs']
        exact delivery_idle hf h hmay hpend _
      rw [← hq] at hpend ⊢
      refine deliveries_untouched hf hmay calls _ _ _ _ h' ?_
      rw [hpend, List.take_nil]
      exact List.not_mem_nil
    | cons k₀ rest =>
      rw [hpend, List.take_succ_cons, List.mem_cons, not_or] at hk
      have hother := delivery_other hf h hmay hpend hs'.symm hk.1
      obtain ⟨t, -, -, hst⟩ := delivery_step hf h hmay hpend (correlationIds 0) hs'.symm
      rw [← hother]
      refine deliveries_untouched hf hmay calls _ _ _ _ h' ?_
      rcases hst with ⟨-, hp, -⟩ | ⟨-, hp, -⟩
      · rw [hp]
        exact hk.2
      · rw [hp]
        cases calls with
        | zero => exact List.not_mem_nil
        | succ calls =>
          rw [List.take_succ_cons, List.mem_cons, not_or]
          refine ⟨hk.1, fun hm => hk.2 ?_⟩
          exact List.take_subset_take_left rest (Nat.le_succ calls) hm

theorem Delivered.congr {s₁ s₁' : State}
    (h : s₁.taskQueue.tasks.get? k = s.taskQueue.tasks.get? k)
    (h' : s₁'.taskQueue.tasks.get? k = s'.taskQueue.tasks.get? k) :
    Delivered s₁ s₁' k ↔ Delivered s s' k := by
  rw [Delivered, h, h', Delivered]

theorem not_delivered (h : (s'.taskQueue.tasks.get? k).map ExecutionTask.deliveryAttempt =
    (s.taskQueue.tasks.get? k).map ExecutionTask.deliveryAttempt) : ¬Delivered s s' k := by
  rintro ⟨t, t', ht, ht', hlt⟩
  rw [ht, ht'] at h
  exact Nat.ne_of_gt hlt (Option.some.inj h)

/-- When the oldest task stays in front, as many calls as there are tasks do not reach
the last one. -/
theorem starved (hf : Function.Injective env.idFactory) (h : Sequential env n s)
    (hmay : p.MayProcess) (hne : rest ≠ []) (hpend : s.taskQueue.pending = k :: rest)
    {correlationIds : Nat → String} {clocks : Nat → Nat → Datetime × Datetime}
    (hs' : s' = (answer env n s (.processNextTask p (correlationIds 0)) (clocks 0)).2)
    (hpend' : s'.taskQueue.pending = k :: rest) : ∃ k' ∈ rest,
      ¬Delivered s (deliveries env p (rest.length + 1) correlationIds clocks n s) k' := by
  obtain ⟨init, last, hl⟩ := (List.eq_nil_or_concat rest).resolve_left hne
  rw [List.concat_eq_append] at hl
  subst hl
  have hn := pending_nodup (h.consistent hf)
  rw [hpend, List.nodup_cons, List.nodup_append] at hn
  obtain ⟨hk, -, -, hlast⟩ := hn
  have hne' : last ≠ k := fun he => hk (he ▸ List.mem_append_right _ (.head _))
  refine ⟨last, List.mem_append_right _ (.head _), not_delivered (congrArg (Option.map _) ?_)⟩
  have h' : Sequential env (n + 1) s' := hs' ▸ h.after _ _
  rw [deliveries, ← hs', deliveries_untouched hf hmay _ _ _ _ _ h']
  · exact delivery_other hf h hmay hpend hs' hne'
  · rw [hpend', List.length_append, List.length_singleton, List.take_succ_cons,
      List.take_left, List.mem_cons, not_or]
    exact ⟨hne', fun hm => hlast last hm last (.head _) rfl⟩

theorem delivered_iff (hf : Function.Injective env.idFactory) (hmay : p.MayProcess) :
    ∀ (pending : List String) (correlationIds : Nat → String)
      (clocks : Nat → Nat → Datetime × Datetime) (n : Nat) (s : State), Sequential env n s →
      s.taskQueue.pending = pending →
      ((∀ k ∈ pending,
          Delivered s (deliveries env p pending.length correlationIds clocks n s) k) ↔
        ∀ j k, j + 1 < pending.length → pending[j]? = some k → Retires env s k (clocks j 2).1)
  | [], _, _, _, _, _, _ => iff_of_true (fun _ h => by cases h) fun _ _ h => by cases h
  | k :: rest, correlationIds, clocks, n, s, h, hpend => by
    have h' := h.after (.processNextTask p (correlationIds 0)) (clocks 0)
    generalize hs' : (answer env n s (.processNextTask p (correlationIds 0)) (clocks 0)).2 = s'
      at h'
    have hk : k ∉ rest := by
      have hn := pending_nodup (h.consistent hf)
      rw [hpend] at hn
      exact (List.nodup_cons.mp hn).1
    have hdel := delivery_delivers hf h hmay hpend hs'.symm
    have hother : ∀ {k'}, k' ∈ rest →
        s'.taskQueue.tasks.get? k' = s.taskQueue.tasks.get? k' :=
      fun hk' => delivery_other hf h hmay hpend hs'.symm fun he => hk (he ▸ hk')
    have hret : ∀ {k'} now, k' ∈ rest → (Retires env s' k' now ↔ Retires env s k' now) :=
      fun now hk' => delivery_retires hf h hmay hpend hs'.symm (fun he => hk (he ▸ hk')) now
    obtain ⟨t, -, -, hst⟩ := delivery_step hf h hmay hpend (correlationIds 0) hs'.symm
    rcases hst with ⟨hr, hp, -⟩ | ⟨hr, hp, -⟩
    · -- the oldest task has left the queue: the rest is the backlog of what follows
      have ih := delivered_iff hf hmay rest (fun j => correlationIds (j + 1))
        (fun j => clocks (j + 1)) (n + 1) s' h' hp
      have hlast := deliveries_untouched (k := k) hf hmay rest.length
        (fun j => correlationIds (j + 1)) (fun j => clocks (j + 1)) _ _ h'
        (by rw [hp, List.take_length]; exact hk)
      rw [List.length_cons, deliveries, hs']
      refine ⟨fun hall j k' hj hk' => ?_, fun hall k' hk' => ?_⟩
      · cases j with
        | zero =>
          cases hk'
          exact hr
        | succ j =>
          have hm : k' ∈ rest := List.mem_of_getElem? hk'
          refine (hret _ hm).mp (ih.mp (fun x hx => ?_) j k' (by omega) hk')
          exact (Delivered.congr (hother hx) rfl).mpr (hall x (.tail _ hx))
      · rcases List.mem_cons.mp hk' with rfl | hm
        · exact (Delivered.congr rfl hlast).mpr hdel
        · refine (Delivered.congr (hother hm) rfl).mp (ih.mpr (fun j x hj hx => ?_) k' hm)
          exact (hret _ (List.mem_of_getElem? hx)).mpr (hall (j + 1) x (by omega) hx)
    · -- the oldest task has stayed in front
      by_cases hne : rest = []
      · subst hne
        refine iff_of_true (fun k' hk' => ?_) fun j _ hj => absurd hj (by simp)
        rw [List.mem_singleton.mp hk', List.length_singleton, deliveries, hs']
        exact hdel
      · refine iff_of_false (fun hall => ?_) fun hall => hr (hall 0 k ?_ rfl)
        · obtain ⟨k', hk', hno⟩ := starved hf h hmay hne hpend hs'.symm hp
          exact hno (hall k' (.tail _ hk'))
        · rw [List.length_cons]
          exact Nat.succ_lt_succ (List.length_pos_iff.mpr hne)

/-- **When a task starves the others.** In a sequential run, as many consecutive
`process_next_task` calls by an operator as there are tasks that wait deliver every
one of them exactly when each call but the last takes its own task, the oldest of
those that wait, out of the queue. -/
theorem deliveries_delivered_iff (hf : Function.Injective env.idFactory) (hmay : p.MayProcess)
    (h : Sequential env n s) (correlationIds : Nat → String)
    (clocks : Nat → Nat → Datetime × Datetime) :
    (∀ k ∈ s.taskQueue.pending, Delivered s
        (deliveries env p s.taskQueue.pending.length correlationIds clocks n s) k) ↔
      ∀ j k, j + 1 < s.taskQueue.pending.length → s.taskQueue.pending[j]? = some k →
        Retires env s k (clocks j 2).1 :=
  delivered_iff hf hmay _ correlationIds clocks n s h rfl

/-! ## Two tasks -/

/-- A request of the requester and one of the administrator, both approved. -/
def twoApproved : List (Call × (Datetime × Datetime)) :=
  [(.create sampleRequest, 1, 1), (.create { sampleRequest with principal := localAdministrator },
      2, 2),
    (.plan localAdministrator "w" "c-2", 3, 3), (.plan localAdministrator "ww" "c-3", 4, 4),
    (.decideApproval localReviewer "w" .approved "reviewed" "key-2" "c-4", 5, 5),
    (.decideApproval localReviewer "ww" .approved "reviewed" "key-3" "c-5", 6, 6)]

def twoTasks (env : Environment) : State := serve env 0 { now := 0, utc := 0 } twoApproved

/-- The policy denies the tool to the workflows of the requester. -/
def denyingEnv : Environment :=
  { sampleEnv with
    policy := fun context =>
      if context.operation = .toolExecution ∧ context.subjectId = "local-requester" then
        { sampleEnv.policy context with
          outcome := .deny
          executionAllowed := false
          reasons := ["The tool is denied."] }
      else sampleEnv.policy context }

/-- Two calls deliver the denied task twice, and the task behind it never. -/
theorem second_task_starved : Sequential denyingEnv 6 (twoTasks denyingEnv) ∧
    (twoTasks denyingEnv).taskQueue.pending.length = 2 ∧
    ¬∀ k ∈ (twoTasks denyingEnv).taskQueue.pending, Delivered (twoTasks denyingEnv)
      (deliveries denyingEnv localOperator 2 (fun _ => "c-6") (fun _ _ => (7, 7)) 6
        (twoTasks denyingEnv)) k := by
  have h : ((twoTasks denyingEnv).taskQueue.pending[1]?.map fun k =>
      decide ((twoTasks denyingEnv).taskQueue.pending.length = 2 ∧
        ((deliveries denyingEnv localOperator 2 (fun _ => "c-6") (fun _ _ => (7, 7)) 6
          (twoTasks denyingEnv)).taskQueue.tasks.get? k).map ExecutionTask.deliveryAttempt =
            ((twoTasks denyingEnv).taskQueue.tasks.get? k).map
              ExecutionTask.deliveryAttempt)) = some true := by decide +kernel
  obtain ⟨k, hk, h⟩ := Option.map_eq_some_iff.mp h
  obtain ⟨hlen, hsame⟩ := of_decide_eq_true h
  exact ⟨sequential_serve denyingEnv 0 0 twoApproved, hlen, fun hall =>
    not_delivered hsame (hall k (List.mem_of_getElem? hk))⟩

/-- Where the policy allows the tool, two calls deliver both tasks. -/
theorem deliveries_delivered_twoTasks :
    (twoTasks sampleEnv).taskQueue.pending.length = 2 ∧
    ∀ k ∈ (twoTasks sampleEnv).taskQueue.pending, Delivered (twoTasks sampleEnv)
      (deliveries sampleEnv localOperator (twoTasks sampleEnv).taskQueue.pending.length
        (fun _ => "c-6") (fun _ _ => (7, 7)) 6 (twoTasks sampleEnv)) k := by
  have hseq : Sequential sampleEnv 6 (twoTasks sampleEnv) :=
    sequential_serve sampleEnv 0 0 twoApproved
  refine ⟨by decide +kernel, (deliveries_delivered_iff sampleId_injective
    (by unfold Principal.MayProcess; decide) hseq _ _).mpr ?_⟩
  have h : ((twoTasks sampleEnv).taskQueue.pending.all fun k =>
      (((twoTasks sampleEnv).taskQueue.tasks.get? k).bind fun t =>
        ((twoTasks sampleEnv).stored t.workflowId).bind fun w => w.approvalDecision).isSome) =
      true := by decide +kernel
  intro j k _ hk
  obtain ⟨approval, ha⟩ :=
    Option.isSome_iff_exists.mp (List.all_eq_true.mp h k (List.mem_of_getElem? hk))
  obtain ⟨t, ht, ha⟩ := Option.bind_eq_some_iff.mp ha
  obtain ⟨w, hw, ha⟩ := Option.bind_eq_some_iff.mp ha
  exact ⟨t, w, approval, ht, hw, ha, .inr rfl⟩

end AgenticDelivery.Api
