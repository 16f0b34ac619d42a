import AgenticDelivery.Api.Consistency

/-! # What each operation keeps

One lemma for each operation that writes: its precondition, its reply, and that
it keeps the discipline of the service. -/
namespace AgenticDelivery.Api
open AgenticDelivery.Atomic AgenticDelivery.Data AgenticDelivery.Runtime

variable {env : Environment} {tid : Nat} {call : Call} {s s' : State} {w w' : Workflow}
  {task : ExecutionTask} {proposal : ToolActionProposal}

/-! ## Steps that leave the stores alone -/

/-- A step that leaves the four stores alone, and forgets no id and no audit event. -/
structure Quiet (s s' : State) : Prop where
  repository : s'.repository = s.repository
  taskQueue : s'.taskQueue = s.taskQueue
  toolExecutor : s'.toolExecutor = s.toolExecutor
  issued : s.issued <+: s'.issued
  audit : s.audit <+: s'.audit

theorem Quiet.rely (h : Quiet s s') (hc : Consistent env s) : (discipline env).Rely tid s s' := by
  obtain ⟨hr, hq, he, hi, ha⟩ := h
  obtain ⟨repository, audit, queue, executor, now, utc, issued, calls⟩ := s
  obtain ⟨repository', audit', queue', executor', now', utc', issued', calls'⟩ := s'
  simp only at hr hq he hi ha
  subst hr hq he
  refine ⟨?_, ?_, ?_⟩
  · refine ⟨fun hw => ?_, hc.bound, hc.queued, hc.order, hc.mem_order, hc.retired, hc.recorded,
      hc.ticketed⟩
    obtain ⟨hid, hl, n, hn, he⟩ := hc.stored hw
    exact ⟨hid, hl, n, Nat.lt_of_lt_of_le hn hi.length_le, he⟩
  · exact ⟨(Evolve.refl env _).stored, id, (Evolve.refl env _).queued, List.prefix_rfl,
      Finset.Subset.refl _, id, ha⟩
  · intro n hn hf
    obtain ⟨more, rfl⟩ := hi
    obtain ⟨hlt, -⟩ := List.getElem?_eq_some_iff.mp hn
    exact ⟨by rw [List.getElem?_append_left hlt]; exact hn, hf⟩

theorem Quiet.kept (h : Quiet s s') (hc : Consistent env s) : (discipline env).Kept tid s s' := by
  have hr (i : Nat) : (discipline env).Rely i s s' := h.rely hc
  exact ⟨(hr tid).inv, (hr tid).evolve, fun i _ => (hr i).own⟩

/-! ## Repository -/

/-- The error of a stale `update`. -/
def staleUpdate : Failure :=
  .application .invalidWorkflowState
    "The workflow changed before the planning result could be stored."

theorem update_cases (env : Environment) (tid : Nat) (s : State) (w' : Workflow) (v : Nat) :
    (exec env tid (.repositoryUpdate w' v) s = (.error staleUpdate, s) ∧
      ∀ w, s.stored w'.workflowId = some w → w.stateVersion ≠ v) ∨
    (∃ w, s.stored w'.workflowId = some w ∧ w.stateVersion = v ∧
      exec env tid (.repositoryUpdate w' v) s = (.ok w', s.put w')) := by
  cases hw : s.stored w'.workflowId with
  | none =>
    left
    refine ⟨?_, fun _ h => by cases h⟩
    simp only [State.stored] at hw
    simp only [exec, InMemoryWorkflowRepository.update, hw, staleUpdate]
  | some w =>
    simp only [State.stored] at hw
    by_cases hv : w.stateVersion = v
    · right
      refine ⟨w, rfl, hv, ?_⟩
      simp only [exec, InMemoryWorkflowRepository.update, hw, hv, ne_eq, not_true_eq_false,
        if_false, State.put]
    · left
      refine ⟨?_, fun w' h => by cases h; exact hv⟩
      simp only [exec, InMemoryWorkflowRepository.update, hw, ne_eq, hv, not_false_eq_true,
        if_true, staleUpdate]

theorem kept_put (h : Consistent env s) (hw : s.stored w'.workflowId = some w)
    (ha : Advance env call w w')
    (hx : ∀ r, w'.executionResult = some r → s.record r.idempotencyKey = some r) :
    (discipline env).Kept tid s (s.put w') := by
  refine ⟨h.put hw ha hx, .put hw ha, fun other _ n hn hf => ⟨hn, ?_⟩⟩
  rw [put_stored, if_neg]
  · exact hf
  · intro he
    rw [he] at hf
    exact absurd (hf.symm.trans hw) nofun

/-- The error of a `create` whose key has another request. -/
def keyConflict : Failure :=
  .application .idempotencyConflict
    "The idempotency key was already used with a different request."

/-- The comparison `create` makes. -/
def SameRequest (w w' : Workflow) : Prop :=
  w.request = w'.request ∧ w.requestedLocale = w'.requestedLocale

theorem create_cases (h : Consistent env s) (tid : Nat) (w : Workflow) (key : String) :
    (s.bound w.ownerId key = none ∧
      exec env tid (.repositoryCreate w key) s = (.ok w, s.insert w key)) ∨
    (∃ id existing, s.bound w.ownerId key = some id ∧ s.stored id = some existing ∧
      ((SameRequest existing w ∧ exec env tid (.repositoryCreate w key) s = (.ok existing, s)) ∨
        (¬SameRequest existing w ∧
          exec env tid (.repositoryCreate w key) s = (.error keyConflict, s)))) := by
  cases hb : s.bound w.ownerId key with
  | none =>
    simp only [State.bound] at hb
    exact .inl ⟨rfl, by simp only [exec, InMemoryWorkflowRepository.create, hb, State.insert]⟩
  | some id =>
    obtain ⟨existing, he, -⟩ := h.bound hb
    refine .inr ⟨id, existing, rfl, he, ?_⟩
    simp only [State.bound] at hb
    simp only [State.stored] at he
    simp only [exec, InMemoryWorkflowRepository.create, hb, he]
    by_cases hs : SameRequest existing w
    · left
      rw [if_neg (by rintro (hr | hl); exacts [hr hs.1, hl hs.2])]
      exact ⟨hs, rfl⟩
    · right
      rw [if_pos (by rw [← not_and_or]; exact hs)]
      exact ⟨hs, rfl⟩

theorem kept_insert {r : CreateRequest} {n : Nat} {key : String} {now : Datetime}
    (hf : Function.Injective env.idFactory) (h : Consistent env s) (ha : r.Admitted env)
    (hi : s.issued[n]? = some tid) (hn : s.stored (env.idFactory n) = none)
    (hb : s.bound r.principal.subject key = none) :
    (discipline env).Kept tid s (s.insert (r.received env (env.idFactory n) now) key) := by
  have hlt : n < s.issued.length := (List.getElem?_eq_some_iff.mp hi).1
  refine ⟨h.insert ha hn ⟨n, hlt, rfl⟩, .insert hn hb, fun other ho m hm hs => ⟨hm, ?_⟩⟩
  rw [insert_stored, if_neg]
  · exact hs
  · intro he
    have hmn : m = n := hf he
    rw [hmn, hi] at hm
    exact ho (Option.some.inj hm).symm

/-! ## Task queue -/

theorem enqueue_cases (env : Environment) (tid : Nat) (s : State) (task : ExecutionTask) :
    (∃ existing, s.taskQueue.tasks.get? task.taskId = some existing ∧
      ((exec env tid (.enqueue task) s).1 = .ok existing ∨
        ∃ e, (exec env tid (.enqueue task) s).1 = .error e) ∧
      (exec env tid (.enqueue task) s).2 = s) ∨
    (s.taskQueue.tasks.get? task.taskId = none ∧
      exec env tid (.enqueue task) s = (.ok task, { s with taskQueue := { s.taskQueue with
        tasks := s.taskQueue.tasks.set task.taskId task
        order := s.taskQueue.order ++ [task.taskId] } })) := by
  cases ht : s.taskQueue.tasks.get? task.taskId with
  | none => exact .inr ⟨rfl, by simp only [exec, InMemoryTaskQueue.enqueue, ht]⟩
  | some existing =>
    left
    refine ⟨existing, rfl, ?_⟩
    simp only [exec, InMemoryTaskQueue.enqueue, ht]
    split
    · exact ⟨.inr ⟨_, rfl⟩, rfl⟩
    · exact ⟨.inl rfl, rfl⟩

theorem kept_enqueue (h : Consistent env s) (hw : s.stored task.workflowId = some w)
    (ht : Tasked w task) : (discipline env).Kept tid s (exec env tid (.enqueue task) s).2 := by
  rcases enqueue_cases env tid s task with ⟨_, -, -, he⟩ | ⟨hn, he⟩ <;> rw [he]
  · exact .refl h
  · refine ⟨?_, ?_, fun _ _ _ hi hf => ⟨hi, hf⟩⟩
    · refine ⟨h.stored, h.bound, ?_, ?_, ?_, h.retired, h.recorded, h.ticketed⟩
      · intro k t hk
        rw [Dict.get?_set] at hk
        split at hk
        · rename_i hkt
          cases hk
          exact ⟨hkt.symm, w, hw, ht⟩
        · exact h.queued hk
      · refine List.nodup_append.mpr ⟨h.order, List.nodup_singleton _, fun k hk k' hk' he => ?_⟩
        obtain ⟨t, ht⟩ := (h.mem_order k).mp hk
        rw [he, List.mem_singleton.mp hk', hn] at ht
        cases ht
      · intro k
        simp only [List.mem_append, List.mem_singleton, Dict.get?_set, h.mem_order]
        by_cases hk : k = task.taskId
        · simp [hk]
        · simp [hk]
    · refine { Evolve.refl env s with
        queued := fun {k t} hk => ?_
        order := List.prefix_append _ _ }
      refine ⟨t.deliveryAttempt, ?_⟩
      rw [Dict.get?_set, if_neg]
      · exact hk
      · intro he
        rw [he, hn] at hk
        cases hk

/-- After `enqueue` the task is in the order, new or not. -/
theorem enqueue_mem (h : Consistent env s) (tid : Nat) (task : ExecutionTask) :
    task.taskId ∈ (exec env tid (.enqueue task) s).2.taskQueue.order := by
  rcases enqueue_cases env tid s task with ⟨existing, ht, -, he⟩ | ⟨-, he⟩
  · rw [he]
    exact (h.mem_order _).mpr ⟨existing, ht⟩
  · rw [he]
    exact List.mem_append_right _ List.mem_cons_self

theorem claimNext_cases (h : Consistent env s) (tid : Nat) :
    (s.taskQueue.pending = [] ∧ exec env tid .claimNext s = (.ok none, s)) ∨
    (∃ k t t', s.taskQueue.pending.head? = some k ∧ s.taskQueue.tasks.get? k = some t ∧
      t' = { t with deliveryAttempt := t.deliveryAttempt + 1 } ∧
      exec env tid .claimNext s = (.ok (some t'),
        { s with taskQueue := { s.taskQueue with tasks := s.taskQueue.tasks.set k t' } })) := by
  cases hf : s.taskQueue.order.find? (· ∉ s.taskQueue.completed) with
  | none =>
    left
    refine ⟨?_, by simp only [exec, InMemoryTaskQueue.claimNext, hf]⟩
    rw [InMemoryTaskQueue.pending, List.filter_eq_nil_iff]
    exact List.find?_eq_none.mp hf
  | some k =>
    obtain ⟨t, ht⟩ := (h.mem_order k).mp (List.mem_of_find?_eq_some hf)
    refine .inr ⟨k, t, _, ?_, ht, rfl, by simp only [exec, InMemoryTaskQueue.claimNext, hf, ht]⟩
    rw [InMemoryTaskQueue.pending, List.head?_filter]
    exact hf

theorem kept_claimNext (h : Consistent env s) :
    (discipline env).Kept tid s (exec env tid .claimNext s).2 := by
  rcases claimNext_cases h tid with ⟨-, he⟩ | ⟨k, t, t', -, ht, hd', he⟩ <;> rw [he]
  · exact .refl h
  · refine ⟨?_, ?_, fun _ _ _ hi hf => ⟨hi, hf⟩⟩
    · refine ⟨h.stored, h.bound, ?_, h.order, ?_, h.retired, h.recorded, h.ticketed⟩
      · intro k' u hk
        rw [Dict.get?_set] at hk
        split at hk
        · rename_i hkk
          cases hk
          obtain ⟨hid, w, hw, ht'⟩ := h.queued ht
          subst hd'
          exact ⟨hid.trans hkk.symm, w, hw, ht'.delivered _⟩
        · exact h.queued hk
      · intro k'
        rw [h.mem_order, Dict.get?_set]
        by_cases hk : k' = k
        · simp [hk, ht]
        · simp [hk]
    · refine { Evolve.refl env s with queued := fun {k' u} hk => ?_ }
      rw [Dict.get?_set]
      split
      · rename_i hkk
        rw [hkk, ht] at hk
        cases hk
        exact ⟨_, congrArg some hd'⟩
      · exact ⟨_, hk⟩

/-- A delivered task is the task of a stored workflow. -/
theorem claimNext_ok (h : Consistent env s) {t : ExecutionTask}
    (hr : (exec env tid .claimNext s).1 = .ok (some t)) :
    ∃ w, s.stored t.workflowId = some w ∧ Tasked w t := by
  rcases claimNext_cases h tid with ⟨-, he⟩ | ⟨k, t₀, t', -, ht, hd, he⟩ <;> rw [he] at hr
  · cases hr
  · cases hr
    obtain ⟨-, w, hw, ht'⟩ := h.queued ht
    subst hd
    exact ⟨w, hw, ht'.delivered _⟩

theorem kept_complete (h : Consistent env s) {id : String} (hw : s.stored id = some w)
    (hs : w.status = .completed ∨ w.status = .expired) :
    (discipline env).Kept tid s (exec env tid (.complete (taskIdOf id)) s).2 := by
  refine ⟨?_, { Evolve.refl env s with completed := Finset.subset_insert _ _ },
    fun _ _ _ hi hf => ⟨hi, hf⟩⟩
  refine { h with retired := fun {k} hk => ?_ }
  rcases Finset.mem_insert.mp hk with rfl | hk
  · exact ⟨id, w, rfl, hw, hs⟩
  · exact h.retired hk

/-! ## Ticket executor -/

/-- The execution key determines the stored workflow. -/
theorem stored_of_ticketKey (h : Consistent env s) {id id' : String}
    {proposal' : ToolActionProposal} (hw : s.stored id = some w) (hw' : s.stored id' = some w')
    (hp : w.actionProposal = some proposal) (hp' : w'.actionProposal = some proposal')
    (hk : ticketKey w.workflowId proposal.proposalDigest =
      ticketKey w'.workflowId proposal'.proposalDigest) : w = w' := by
  obtain ⟨hid, hl, -⟩ := h.stored hw
  obtain ⟨hid', hl', -⟩ := h.stored hw'
  have := (ticketKey_inj (hl.digest_colon hp) (hl'.digest_colon hp') hk).1
  rw [hid, hid'] at this
  rw [this, hw'] at hw
  exact (Option.some.inj hw).symm

/-- The state with `r` on record under its key. -/
def State.file (s : State) (r : ToolExecutionResult) : State :=
  { s with toolExecutor := ⟨s.toolExecutor.executions.set r.idempotencyKey r⟩ }

theorem file_record (s : State) (r : ToolExecutionResult) (key : String) :
    (s.file r).record key = if key = r.idempotencyKey then some r else s.record key :=
  s.toolExecutor.executions.get?_set r.idempotencyKey key r

theorem execute_cases (h : Consistent env s) (hw : s.stored task.workflowId = some w)
    (ht : Tasked w task) (hp : w.actionProposal = some proposal)
    (hs : w.status = .executing ∨ w.status = .completed) (tid : Nat) (now : Datetime) :
    (∃ r, s.record task.idempotencyKey = some r ∧ r.proposalDigest = proposal.proposalDigest ∧
      exec env tid (.execute task proposal now) s = (.ok r, s)) ∨
    (s.record task.idempotencyKey = none ∧ w.status = .executing ∧
      exec env tid (.execute task proposal now) s =
        (.ok (SimulatedTicketExecutor.ticketRecord task proposal now),
          s.file (SimulatedTicketExecutor.ticketRecord task proposal now))) := by
  have hkey := ht.idempotencyKey hp
  cases hr : s.record task.idempotencyKey with
  | some r =>
    obtain ⟨hk, id, v, hv, p, _, hpv, -, -, hd, hkv, -⟩ := h.recorded hr
    have hvw : v = w := stored_of_ticketKey h hv hw hpv hp (by rw [← hkv, hk, hkey])
    subst hvw
    rw [hp] at hpv
    cases hpv
    refine .inl ⟨r, rfl, hd, ?_⟩
    simp only [State.record] at hr
    simp only [exec, SimulatedTicketExecutor.execute, hr, hd, ne_eq, not_true_eq_false, if_false]
  | none =>
    refine .inr ⟨rfl, hs.resolve_right fun hc => ?_, ?_⟩
    · have he := (h.stored hw).2.1.evidence
      rw [Evidence, hc] at he
      obtain ⟨-, -, p, r, hp', hx, -, hk⟩ := he
      rw [hp] at hp'
      cases hp'
      have := h.ticketed hw hx
      rw [hk, ← hkey, hr] at this
      cases this
    · simp only [State.record] at hr
      simp only [exec, SimulatedTicketExecutor.execute, hr]
      rfl

theorem kept_execute (h : Consistent env s) (hw : s.stored task.workflowId = some w)
    (ht : Tasked w task) (hp : w.actionProposal = some proposal)
    (hs : w.status = .executing ∨ w.status = .completed) (now : Datetime) :
    (discipline env).Kept tid s (exec env tid (.execute task proposal now) s).2 := by
  rcases execute_cases h hw ht hp hs tid now with ⟨r, -, -, he⟩ | ⟨hn, hx, he⟩ <;> rw [he]
  · exact .refl h
  · refine ⟨?_, ?_, fun _ _ _ hi hf => ⟨hi, hf⟩⟩
    · refine { h with recorded := fun {key r} hr => ?_, ticketed := fun {id v r} hv hr => ?_ }
      · rw [file_record] at hr
        split at hr
        · rename_i hk
          cases hr
          have hkey := ht.idempotencyKey hp
          obtain ⟨_, approval, -, ha, hd, -⟩ := ht
          exact ⟨hk.symm, task.workflowId, w, hw, proposal, approval, hp, ha, hd, rfl, hkey,
            .inl hx⟩
        · exact h.recorded hr
      · have := h.ticketed hv hr
        rw [file_record, if_neg]
        · exact this
        · intro hk
          rw [hk] at this
          exact absurd (hn.symm.trans this) nofun
    · refine { Evolve.refl env s with record := fun {key r} hr => ?_ }
      rw [file_record, if_neg]
      · exact hr
      · intro hk
        rw [hk] at hr
        exact absurd (hn.symm.trans hr) nofun

/-- After `execute` the record is there, bound to the proposal and the task. -/
theorem execute_ok (h : Consistent env s) (hw : s.stored task.workflowId = some w)
    (ht : Tasked w task) (hp : w.actionProposal = some proposal)
    (hs : w.status = .executing ∨ w.status = .completed) (tid : Nat) (now : Datetime) :
    ∃ r, (exec env tid (.execute task proposal now) s).1 = .ok r ∧
      (exec env tid (.execute task proposal now) s).2.record r.idempotencyKey = some r ∧
      r.proposalDigest = proposal.proposalDigest ∧ r.idempotencyKey = task.idempotencyKey := by
  rcases execute_cases h hw ht hp hs tid now with ⟨r, hr, hd, he⟩ | ⟨-, -, he⟩
  · have hk := (h.recorded hr).1
    rw [he]
    exact ⟨r, rfl, by rw [hk]; exact hr, hd, hk⟩
  · rw [he]
    exact ⟨_, rfl, by rw [file_record, if_pos rfl], rfl, rfl⟩

end AgenticDelivery.Api
