import AgenticDelivery.Api.LocalOutcomes
import AgenticDelivery.Api.Starvation

/-! # Draining the queue

What the queue is for: a worker that asks for one task after another does all the
approved work, whatever calls have crashed before. One crash is in the way of this: a
worker that stopped between the expiry of a workflow and the completion of its task
leaves a task in front that no delivery takes away. -/
namespace AgenticDelivery.Api
open AgenticDelivery.Atomic AgenticDelivery.Data AgenticDelivery.Governance AgenticDelivery.Runtime

variable {env : Environment} {n : Nat} {s s' : State} {p : Principal} {k k' : String}
  {rest : List String} {clock : Nat → Datetime × Datetime} {t t' : ExecutionTask}
  {w w' : Workflow}

/-- `s` is the state of some run in which `n` calls have started, some of which may have
stopped for good. -/
def Reached (env : Environment) (n : Nat) (s : State) : Prop :=
  ∃ c, Reachable env c ∧ c.state = s ∧ c.threads.length = n

/-- The task waits for a workflow that has expired. -/
def Poisoned (s : State) (k : String) : Prop :=
  ∃ t w, s.taskQueue.tasks.get? k = some t ∧ s.stored t.workflowId = some w ∧ w.status = .expired

/-- The approval of the workflow is over. -/
def Workflow.Late (w : Workflow) (now : Datetime) : Prop :=
  w.status = .approved ∧ ∃ approval, w.approvalDecision = some approval ∧ approval.expiresAt < now

/-- What a delivery at the time `now` makes of the workflow. -/
structure Resolved (now : Datetime) (w w' : Workflow) : Prop where
  late : w.Late now → w'.status = .expired
  inTime : ¬w.Late now → w'.status = .completed

/-! ## Calls after any run -/

theorem Reached.consistent (hf : Function.Injective env.idFactory) (h : Reached env n s) :
    Consistent env s := by
  obtain ⟨c, hc, rfl, -⟩ := h
  exact hc.consistent hf

theorem Reached.serial (h : Reached env n s) {n' : Nat} (hs : (system env).Serial n s n' s') :
    Reached env n' s' := by
  obtain ⟨c, hc, rfl, rfl⟩ := h
  obtain ⟨c', hreach, hs', hn'⟩ := hs.reaches
  exact ⟨c', hc.trans hreach, hs', hn'⟩

theorem Reached.after (h : Reached env n s) (call : Call) (clock : Nat → Datetime × Datetime) :
    Reached env (n + 1) (answer env n s call clock).2 :=
  h.serial (.call .refl call clock)

theorem Reached.evolve (hf : Function.Injective env.idFactory) (h : Reached env n s) {n' : Nat}
    (hs : (system env).Serial n s n' s') : Evolve env s s' := by
  obtain ⟨c, hc, rfl, rfl⟩ := h
  obtain ⟨c', hreach, rfl, -⟩ := hs.reaches
  exact hc.evolve hf hreach

theorem serial_deliveries (env : Environment) (p : Principal) :
    ∀ (calls : Nat) (correlationIds : Nat → String) (clocks : Nat → Nat → Datetime × Datetime)
      (n : Nat) (s : State),
      (system env).Serial n s (n + calls) (deliveries env p calls correlationIds clocks n s)
  | 0, _, _, _, _ => .refl
  | calls + 1, correlationIds, clocks, n, s => by
    have h := (System.Serial.refl.call (Call.processNextTask p (correlationIds 0)) (clocks 0)).trans
      (serial_deliveries env p calls (fun j => correlationIds (j + 1)) (fun j => clocks (j + 1))
        (n + 1) (answer env n s (.processNextTask p (correlationIds 0)) (clocks 0)).2)
    rw [Nat.add_right_comm] at h
    exact h

/-! ## One delivery -/

/-- The next task is the oldest one. -/
theorem NextTask.first (hc : Consistent env s) (hpend : s.taskQueue.pending = k :: rest)
    {task : ExecutionTask} (next : NextTask s p task w) : ∃ t, task.taskId = k ∧
      s.taskQueue.tasks.get? k = some t ∧
      task = { t with deliveryAttempt := t.deliveryAttempt + 1 } ∧
      s.stored t.workflowId = some w ∧ w.workflowId = t.workflowId := by
  have hk : task.taskId = k := by
    have hh := next.head
    rw [hpend] at hh
    exact (Option.some.inj hh).symm
  obtain ⟨t, ht, htask⟩ := next.queued
  have hw : s.stored t.workflowId = some w := by
    rw [← next.stored, htask]
  exact ⟨t, hk, hk ▸ ht, htask, hw, (hc.stored hw).1⟩

/-- The tasks of the queue belong to different workflows. -/
theorem Consistent.workflowId_ne (hc : Consistent env s) (ht : s.taskQueue.tasks.get? k = some t)
    (ht' : s.taskQueue.tasks.get? k' = some t') (hne : k' ≠ k) : t'.workflowId ≠ t.workflowId := by
  intro hid
  obtain ⟨hk, _, -, htw⟩ := hc.queued ht
  obtain ⟨hk', _, -, htw'⟩ := hc.queued ht'
  exact hne (by rw [← hk, ← hk', htw.taskId, htw'.taskId, ← htw.workflowId, ← htw'.workflowId, hid])

theorem completeExecution_status {result : ToolExecutionResult} {now : Datetime}
    (h : w.completeExecution result now = .ok w') : w'.status = .completed := by
  obtain ⟨_, -, rfl⟩ := completeExecution_ok h
  rfl

/-- What a delivery of the oldest task does. -/
structure Delivery (now : Datetime) (s s' : State) (k : String) (rest : List String)
    (t : ExecutionTask) (w : Workflow) : Prop where
  queued : s.taskQueue.tasks.get? k = some t
  stored : s.stored t.workflowId = some w
  tasks : s'.taskQueue.tasks =
    s.taskQueue.tasks.set k { t with deliveryAttempt := t.deliveryAttempt + 1 }
  others : ∀ id, id ≠ t.workflowId → s'.stored id = s.stored id
  /-- The task of an expired workflow stays in front. -/
  stuck : w.status = .expired → s'.taskQueue.pending = k :: rest ∧ s'.stored t.workflowId = some w
  /-- Any other task is done. -/
  resolved : w.status ≠ .expired → s'.taskQueue.pending = rest ∧
    ∃ w', s'.stored t.workflowId = some w' ∧ Resolved now w w'

theorem delivery (clock : Nat → Datetime × Datetime) (hf : Function.Injective env.idFactory)
    (h : Reached env n s) (hmay : p.MayProcess)
    (hallow : ∀ context, (env.policy (executionContext context)).executionAllowed = true)
    (hpend : s.taskQueue.pending = k :: rest) (correlationId : String)
    (hs' : s' = (answer env n s (.processNextTask p correlationId) clock).2) :
    ∃ t w, Delivery (clock 2).1 s s' k rest t w := by
  have hc := h.consistent hf
  have hn := pending_nodup hc
  obtain ⟨left, outcomes, hx, hs, -⟩ :=
    @Consistent.ends env n clock s hc (.processNextTask p correlationId)
  rw [← hs'] at hs
  generalize ((system env).alone n (.processNextTask p correlationId) s clock).1 = o at hx
  obtain ⟨hr, hq, -⟩ := hs
  -- a completed task leaves the rest of the queue
  have done : ∀ {q : Api.InMemoryTaskQueue}, q.order = s.taskQueue.order →
      q.completed = insert k s.taskQueue.completed → q.pending = rest :=
    fun ho hcomp => pending_insert hn hpend ho hcomp
  cases hx with
  | processDenied role => exact absurd hmay role
  | nothingPending may empty => rw [empty] at hpend; cases hpend
  | redelivered next status =>
    obtain ⟨t, rfl, ht, htask, hw, hid⟩ := next.first hc hpend
    refine ⟨t, _, ht, hw, by rw [hq, ← htask]; rfl, fun id _ => by rw [State.stored, hr]; rfl,
      fun he => absurd (status.symm.trans he) (by decide), fun _ =>
        ⟨by rw [hq]; exact done rfl rfl, _, by rw [State.stored, hr]; exact hw,
          fun hl => absurd (status.symm.trans hl.1) (by decide), fun _ => status⟩⟩
  | deliveredStale next status =>
    obtain ⟨t, rfl, ht, htask, hw, hid⟩ := next.first hc hpend
    exact ⟨t, _, ht, hw, by rw [hq, ← htask]; rfl, fun id _ => by rw [State.stored, hr]; rfl,
      fun _ => ⟨by rw [hq]; exact hpend, by rw [State.stored, hr]; exact hw⟩,
      fun he => absurd status he⟩
  | approvalExpired next status approval_ late =>
    obtain ⟨t, rfl, ht, htask, hw, hid⟩ := next.first hc hpend
    obtain ⟨w', hw', hexp⟩ : ∃ w', s'.stored t.workflowId = some w' ∧ w'.status = .expired := by
      rw [State.stored, hr, ← hid]
      exact ⟨_, put_stored_self .., rfl⟩
    refine ⟨t, _, ht, hw, by rw [hq, ← htask]; rfl, fun id hne => ?_,
      fun he => absurd (status.symm.trans he) (by decide), fun _ =>
        ⟨by rw [hq]; exact done rfl rfl, w', hw', fun _ => hexp,
          fun hl => absurd ⟨status, _, approval_, late⟩ hl⟩⟩
    rw [State.stored, hr]
    exact (put_stored ..).trans (if_neg (by rw [← hid] at hne; exact hne))
  | executionRefused _ _ _ _ refused => exact absurd (refused.symm.trans (hallow _)) (by decide)
  | executed next status approval_ inTime allowed proposal_ started ticket completed =>
    obtain ⟨t, rfl, ht, htask, hw, hid⟩ := next.first hc hpend
    have hid₁ := completeExecution_workflowId completed
    have hid₂ : _ = t.workflowId := (congrArg Workflow.workflowId started).trans hid
    obtain ⟨w', hw', hdone⟩ : ∃ w', s'.stored t.workflowId = some w' ∧ w'.status = .completed := by
      rw [State.stored, hr, ← hid₂, ← hid₁]
      exact ⟨_, put_stored_self .., completeExecution_status completed⟩
    refine ⟨t, _, ht, hw, by rw [hq, ← htask]; rfl, fun id hne => ?_,
      fun he => absurd (status.symm.trans he) (by decide), fun _ =>
        ⟨by rw [hq]; exact done rfl rfl, w', hw', ?_, fun _ => hdone⟩⟩
    · rw [State.stored, hr]
      refine (put_stored ..).trans ((if_neg ?_).trans ((put_stored ..).trans (if_neg ?_)))
      · rw [hid₁, hid₂]
        exact hne
      · rw [hid₂]
        exact hne
    · rintro ⟨-, approval, ha, hlate⟩
      cases approval_.symm.trans ha
      exact absurd hlate (not_lt.mpr inTime)
  | resumed next status proposal_ ticket completed =>
    obtain ⟨t, rfl, ht, htask, hw, hid⟩ := next.first hc hpend
    have hid₁ := completeExecution_workflowId completed
    obtain ⟨w', hw', hdone⟩ : ∃ w', s'.stored t.workflowId = some w' ∧ w'.status = .completed := by
      rw [State.stored, hr, ← hid, ← hid₁]
      exact ⟨_, put_stored_self .., completeExecution_status completed⟩
    refine ⟨t, _, ht, hw, by rw [hq, ← htask]; rfl, fun id hne => ?_,
      fun he => absurd (status.symm.trans he) (by decide), fun _ =>
        ⟨by rw [hq]; exact done rfl rfl, w', hw',
          fun hl => absurd (status.symm.trans hl.1) (by decide), fun _ => hdone⟩⟩
    rw [State.stored, hr]
    refine (put_stored ..).trans (if_neg ?_)
    rw [hid₁, hid]
    exact hne

/-! ## The queue -/

section Delivered
variable {now : Datetime}

theorem Delivery.poisoned_iff (hd : Delivery now s s' k rest t w) :
    Poisoned s k ↔ w.status = .expired := by
  constructor
  · rintro ⟨t', w', ht', hw', hs⟩
    cases hd.queued.symm.trans ht'
    cases hd.stored.symm.trans hw'
    exact hs
  · exact fun hs => ⟨t, w, hd.queued, hd.stored, hs⟩

/-- Another task and its workflow are as they were. -/
theorem Delivery.other (hd : Delivery now s s' k rest t w) (hc : Consistent env s) (hne : k' ≠ k) :
    s'.taskQueue.tasks.get? k' = s.taskQueue.tasks.get? k' ∧
      ∀ t', s.taskQueue.tasks.get? k' = some t' →
        s'.stored t'.workflowId = s.stored t'.workflowId := by
  refine ⟨by rw [hd.tasks, Dict.get?_set_ne _ hne], fun t' ht' => ?_⟩
  exact hd.others _ (hc.workflowId_ne hd.queued ht' hne)

theorem Delivery.poisoned_other (hd : Delivery now s s' k rest t w) (hc : Consistent env s)
    (hne : k' ≠ k) : Poisoned s' k' ↔ Poisoned s k' := by
  obtain ⟨htask, hstored⟩ := hd.other hc hne
  refine exists_congr fun t' => exists_congr fun w' => ?_
  rw [htask]
  refine and_congr_right fun ht' => ?_
  rw [hstored t' ht']

end Delivered

section Queue
variable (hf : Function.Injective env.idFactory) (hmay : p.MayProcess)
  (hallow : ∀ context, (env.policy (executionContext context)).executionAllowed = true)
include hf hmay hallow

/-- A poisoned task is delivered for ever. -/
theorem stuck : ∀ (calls : Nat) (correlationIds : Nat → String)
    (clocks : Nat → Nat → Datetime × Datetime) (n : Nat) (s : State), Reached env n s →
    s.taskQueue.pending = k :: rest → Poisoned s k →
    (deliveries env p calls correlationIds clocks n s).taskQueue.pending = k :: rest
  | 0, _, _, _, _, _, hpend, _ => hpend
  | calls + 1, correlationIds, clocks, n, s, h, hpend, hpoison => by
    obtain ⟨t, w, hd⟩ := delivery (clocks 0) hf h hmay hallow hpend (correlationIds 0) rfl
    have hexp := hd.poisoned_iff.mp hpoison
    obtain ⟨hpend', hstored⟩ := hd.stuck hexp
    refine stuck calls _ _ (n + 1) _ (h.after _ _) hpend' ?_
    exact ⟨{ t with deliveryAttempt := t.deliveryAttempt + 1 }, w,
      by rw [hd.tasks, Dict.get?_set_self], hstored, hexp⟩

theorem drained : ∀ (pending : List String) (correlationIds : Nat → String)
    (clocks : Nat → Nat → Datetime × Datetime) (n : Nat) (s : State), Reached env n s →
    s.taskQueue.pending = pending → (∀ k ∈ pending, ¬Poisoned s k) →
    (deliveries env p pending.length correlationIds clocks n s).taskQueue.pending = [] ∧
      ∀ (j : Nat) k t w, pending[j]? = some k → s.taskQueue.tasks.get? k = some t →
        s.stored t.workflowId = some w → ∃ w',
          (deliveries env p pending.length correlationIds clocks n s).stored t.workflowId =
            some w' ∧ Resolved (clocks j 2).1 w w'
  | [], _, _, _, _, _, hpend, _ => ⟨hpend, fun j k t w hk => by cases hk⟩
  | k :: rest, correlationIds, clocks, n, s, h, hpend, hclean => by
    have hc := h.consistent hf
    have hk : k ∉ rest := by
      have hn := pending_nodup hc
      rw [hpend] at hn
      exact (List.nodup_cons.mp hn).1
    obtain ⟨t, w, hd⟩ := delivery (clocks 0) hf h hmay hallow hpend (correlationIds 0) rfl
    have h' := h.after (.processNextTask p (correlationIds 0)) (clocks 0)
    obtain ⟨hpend', w', hw', hres⟩ :=
      hd.resolved fun he => hclean k (.head _) (hd.poisoned_iff.mpr he)
    have hne : ∀ {k'}, k' ∈ rest → k' ≠ k := fun hm he => hk (he ▸ hm)
    have ih := drained rest (fun j => correlationIds (j + 1)) (fun j => clocks (j + 1)) (n + 1) _ h'
      hpend' fun k' hm hp => hclean k' (.tail _ hm) ((hd.poisoned_other hc (hne hm)).mp hp)
    refine ⟨ih.1, fun j k' t₁ w₁ hj ht₁ hw₁ => ?_⟩
    cases j with
    | zero =>
      cases hj
      cases hd.queued.symm.trans ht₁
      cases hd.stored.symm.trans hw₁
      -- what the first delivery has settled stays so
      obtain ⟨w'', hw'', hl⟩ :=
        (h'.evolve hf (serial_deliveries env p rest.length _ _ _ _)).stored hw'
      have hfinal : w'.status.Final := by
        by_cases hl : w.Late (clocks 0 2).1
        · exact .inr (.inl (hres.late hl))
        · exact .inr (.inr (hres.inTime hl))
      rw [hl.eq_of_final hfinal] at hw''
      exact ⟨w', hw'', hres⟩
    | succ j =>
      have hm : k' ∈ rest := List.mem_of_getElem? hj
      obtain ⟨htask, hstored⟩ := hd.other hc (hne hm)
      exact ih.2 j k' t₁ w₁ hj (htask.trans ht₁) ((hstored t₁ ht₁).trans hw₁)

/-- A queue that has been emptied held no poisoned task. -/
theorem clean_of_drained : ∀ (pending : List String) (correlationIds : Nat → String)
    (clocks : Nat → Nat → Datetime × Datetime) (n : Nat) (s : State), Reached env n s →
    s.taskQueue.pending = pending →
    (deliveries env p pending.length correlationIds clocks n s).taskQueue.pending = [] →
    ∀ k ∈ pending, ¬Poisoned s k
  | [], _, _, _, _, _, _, _ => fun _ hk => by cases hk
  | k :: rest, correlationIds, clocks, n, s, h, hpend, hempty => by
    have hc := h.consistent hf
    have hn := pending_nodup hc
    rw [hpend] at hn
    have hk : ¬Poisoned s k := by
      intro hp
      rw [stuck hf hmay hallow _ correlationIds clocks n s h hpend hp] at hempty
      cases hempty
    obtain ⟨t, w, hd⟩ := delivery (clocks 0) hf h hmay hallow hpend (correlationIds 0) rfl
    obtain ⟨hpend', -⟩ := hd.resolved fun he => hk (hd.poisoned_iff.mpr he)
    have ih := clean_of_drained rest _ _ (n + 1) _ (h.after _ _) hpend' hempty
    intro k' hm
    rcases List.mem_cons.mp hm with rfl | hm
    · exact hk
    · have hne : k' ≠ k := fun he => (List.nodup_cons.mp hn).1 (he ▸ hm)
      exact fun hp => ih k' hm ((hd.poisoned_other hc hne).mpr hp)

/-- **When the queue drains.** After any run, whatever calls have stopped half way, as many
consecutive `process_next_task` calls of an operator as there are tasks that wait empty
the queue exactly when none of these tasks belongs to an expired workflow; then each of
their workflows is completed, or has expired if its approval was over when its turn
came. -/
theorem drains (h : Reached env n s) (correlationIds : Nat → String)
    (clocks : Nat → Nat → Datetime × Datetime) :
    ((deliveries env p s.taskQueue.pending.length correlationIds clocks n s).taskQueue.pending =
        [] ↔ ∀ k ∈ s.taskQueue.pending, ¬Poisoned s k) ∧
    ((∀ k ∈ s.taskQueue.pending, ¬Poisoned s k) →
      ∀ (j : Nat) k t w, s.taskQueue.pending[j]? = some k → s.taskQueue.tasks.get? k = some t →
        s.stored t.workflowId = some w → ∃ w',
          (deliveries env p s.taskQueue.pending.length correlationIds clocks n s).stored
            t.workflowId = some w' ∧ Resolved (clocks j 2).1 w w') := by
  have hdrained := drained hf hmay hallow _ correlationIds clocks n s h rfl
  exact ⟨⟨clean_of_drained hf hmay hallow _ _ _ n s h rfl, fun hclean => (hdrained hclean).1⟩,
    fun hclean => (hdrained hclean).2⟩

end Queue

/-! ### A queue with two tasks, and a poisoned one -/

theorem drains_twoTasks :
    (twoTasks sampleEnv).taskQueue.pending.length = 2 ∧
    (deliveries sampleEnv localOperator (twoTasks sampleEnv).taskQueue.pending.length
      (fun _ => "c-6") (fun _ _ => (7, 7)) 6 (twoTasks sampleEnv)).taskQueue.pending = [] := by
  have hseq : Sequential sampleEnv 6 (twoTasks sampleEnv) :=
    sequential_serve sampleEnv 0 0 twoApproved
  refine ⟨by decide +kernel, ((drains sampleId_injective
    (by unfold Principal.MayProcess; decide) (fun _ => rfl) hseq.reachable _ _).1).mpr ?_⟩
  rintro k hk ⟨t, w, ht, hw, he⟩
  have hopen : k ∉ (twoTasks sampleEnv).taskQueue.completed :=
    of_decide_eq_true (List.mem_filter.mp hk).2
  obtain ⟨v, hv, hs⟩ := (hseq.backlog sampleId_injective).1 k t ht hopen
  cases hw.symm.trans hv
  exact absurd (hs.symm.trans he) (by decide)

/-- The approval of a task is over when a worker takes it, and the worker stops once it has
stored the expiry. -/
def stoppedExpiry : List (Move Call (Datetime × Datetime)) :=
  approvedRun ++ [.tick (minutes 20, minutes 20)] ++
    moves 3 (.processNextTask localOperator "c-4") 4

/-- Its task stays in the queue. -/
theorem not_drained_stoppedExpiry :
    (deliveries sampleEnv localOperator
      ((system sampleEnv).play (initial 0 0) stoppedExpiry).state.taskQueue.pending.length
      (fun _ => "c-5") (fun _ _ => (minutes 21, minutes 21)) 4
      ((system sampleEnv).play (initial 0 0) stoppedExpiry).state).taskQueue.pending ≠ [] := by
  have hlen : ((system sampleEnv).play (initial 0 0) stoppedExpiry).threads.length = 4 := by
    decide +kernel
  have hpoison : (((system sampleEnv).play (initial 0 0) stoppedExpiry).state.taskQueue.pending.any
      fun k => (((system sampleEnv).play (initial 0 0) stoppedExpiry).state.taskQueue.tasks.get?
        k).any fun t => (((system sampleEnv).play (initial 0 0) stoppedExpiry).state.stored
          t.workflowId).any fun w => w.status = .expired) = true := by decide +kernel
  obtain ⟨k, hk, hpoison⟩ := List.any_eq_true.mp hpoison
  obtain ⟨t, ht, hpoison⟩ := (Option.any_eq_true _ _).mp hpoison
  obtain ⟨w, hw, he⟩ := (Option.any_eq_true _ _).mp hpoison
  intro hempty
  exact clean_of_drained sampleId_injective (by unfold Principal.MayProcess; decide)
    (fun _ => rfl) _ _ _ _ _ ⟨_, reachable_play sampleEnv 0 0 stoppedExpiry, rfl, hlen⟩ rfl hempty
    k hk ⟨t, w, ht, hw, of_decide_eq_true he⟩

end AgenticDelivery.Api
