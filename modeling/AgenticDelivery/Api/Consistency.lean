import AgenticDelivery.Api.Evidence
import AgenticDelivery.Atomic.RelyGuarantee

/-! # The consistency of the four stores

Repository, index of idempotency keys, task queue and ticket executor are
written in separate steps. `Consistent` says how they fit together between any
two steps, `Evolve` how they may change, and `Own` which ids a caller may count
on. Each operation of the service keeps them, under the precondition its
lemma states. -/
namespace AgenticDelivery.Api
open AgenticDelivery.Atomic AgenticDelivery.Data AgenticDelivery.Runtime

/-- The workflow stored under an id. -/
abbrev State.stored (s : State) (workflowId : String) : Option Workflow :=
  s.repository.workflows.get? workflowId

/-- The record under an execution key. -/
abbrev State.record (s : State) (key : String) : Option ToolExecutionResult :=
  s.toolExecutor.executions.get? key

/-- The workflow id an owner's idempotency key is bound to. -/
abbrev State.bound (s : State) (owner key : String) : Option String :=
  s.repository.idempotency.get? (owner, key)

/-- `t` is the task of `w`: the workflow is approved, for the proposal of the task. -/
def Tasked (w : Workflow) (t : ExecutionTask) : Prop :=
  ∃ proposal approval, w.actionProposal = some proposal ∧ w.approvalDecision = some approval ∧
    approval.decision = .approved ∧
    t = { createExecutionTask w.workflowId proposal.proposalDigest with
      deliveryAttempt := t.deliveryAttempt }

/-- `r` is the record of `w`: the workflow is approved, for the proposal of the
record, and is executing or has been completed with this record. -/
def Recorded (w : Workflow) (r : ToolExecutionResult) : Prop :=
  ∃ proposal approval, w.actionProposal = some proposal ∧ w.approvalDecision = some approval ∧
    approval.decision = .approved ∧ r.proposalDigest = proposal.proposalDigest ∧
    r.idempotencyKey = ticketKey w.workflowId proposal.proposalDigest ∧
    (w.status = .executing ∨ w.status = .completed ∧ w.executionResult = some r)

/-- The invariant of the service. -/
structure Consistent (env : Environment) (s : State) : Prop where
  stored : ∀ {id w}, s.stored id = some w → w.workflowId = id ∧ Lifecycle env w ∧
    ∃ n < s.issued.length, env.idFactory n = id
  bound : ∀ {owner key id}, s.bound owner key = some id →
    ∃ w, s.stored id = some w ∧ w.ownerId = owner
  queued : ∀ {k t}, s.taskQueue.tasks.get? k = some t →
    t.taskId = k ∧ ∃ w, s.stored t.workflowId = some w ∧ Tasked w t
  order : s.taskQueue.order.Nodup
  mem_order : ∀ k, k ∈ s.taskQueue.order ↔ ∃ t, s.taskQueue.tasks.get? k = some t
  retired : ∀ {k}, k ∈ s.taskQueue.completed → ∃ id w, k = taskIdOf id ∧ s.stored id = some w ∧
    (w.status = .completed ∨ w.status = .expired)
  recorded : ∀ {key r}, s.record key = some r → r.idempotencyKey = key ∧
    ∃ id w, s.stored id = some w ∧ Recorded w r
  ticketed : ∀ {id w r}, s.stored id = some w → w.executionResult = some r →
    s.record r.idempotencyKey = some r

/-- An id that is given out now is not stored yet. -/
theorem Consistent.fresh {env : Environment} {s : State} (hf : Function.Injective env.idFactory)
    (hc : Consistent env s) :
    s.stored (env.idFactory s.issued.length) = none := by
  cases hw : s.stored (env.idFactory s.issued.length) with
  | none => rfl
  | some w =>
    obtain ⟨-, -, m, hm, he⟩ := hc.stored hw
    rw [hf he] at hm
    exact absurd hm (Nat.lt_irrefl _)

/-- How the stores may change: workflows live on, and nothing else is lost. -/
structure Evolve (env : Environment) (s s' : State) : Prop where
  stored : ∀ {id w}, s.stored id = some w → ∃ w', s'.stored id = some w' ∧ Later env w w'
  bound : ∀ {owner key id}, s.bound owner key = some id → s'.bound owner key = some id
  queued : ∀ {k t}, s.taskQueue.tasks.get? k = some t →
    ∃ n, s'.taskQueue.tasks.get? k = some { t with deliveryAttempt := n }
  order : s.taskQueue.order <+: s'.taskQueue.order
  completed : s.taskQueue.completed ⊆ s'.taskQueue.completed
  record : ∀ {key r}, s.record key = some r → s'.record key = some r
  audit : s.audit <+: s'.audit

/-- An id that was given to `tid` and is not stored yet stays so. -/
def Own (env : Environment) (tid : Nat) (s s' : State) : Prop :=
  ∀ n, s.issued[n]? = some tid → s.stored (env.idFactory n) = none →
    s'.issued[n]? = some tid ∧ s'.stored (env.idFactory n) = none

theorem Evolve.refl (env : Environment) (s : State) : Evolve env s s where
  stored h := ⟨_, h, .refl⟩
  bound h := h
  queued h := ⟨_, h⟩
  order := List.prefix_rfl
  completed := Finset.Subset.refl _
  record h := h
  audit := List.prefix_rfl

theorem Evolve.trans {env : Environment} {s s' s'' : State} (h : Evolve env s s')
    (h' : Evolve env s' s'') : Evolve env s s'' where
  stored hw := by
    obtain ⟨w', hw', hl⟩ := h.stored hw
    obtain ⟨w'', hw'', hl'⟩ := h'.stored hw'
    exact ⟨w'', hw'', hl.trans hl'⟩
  bound hb := h'.bound (h.bound hb)
  queued ht := by
    obtain ⟨_, ht'⟩ := h.queued ht
    obtain ⟨n, ht''⟩ := h'.queued ht'
    exact ⟨n, ht''⟩
  order := h.order.trans h'.order
  completed := h.completed.trans h'.completed
  record hr := h'.record (h.record hr)
  audit := h.audit.trans h'.audit

/-- The discipline of the service: `Consistent` all along, `Evolve` from state
to state, and `Own` for what is private to one caller. -/
def discipline (env : Environment) : Discipline State where
  Inv := Consistent env
  Evolve := Evolve env
  Own := Own env
  evolve_refl := .refl env
  evolve_trans := .trans
  own_refl _ _ _ hi hn := ⟨hi, hn⟩
  own_trans h h' n hi hn := h' n (h n hi hn).1 (h n hi hn).2

section Records
variable {env : Environment} {call : Call} {w w' : Workflow} {t : ExecutionTask}
  {r : ToolExecutionResult}

theorem Tasked.mono (h : Tasked w t) (hg : Grows w w') : Tasked w' t := by
  obtain ⟨proposal, approval, hp, ha, hd, ht⟩ := h
  obtain ⟨_, -, ha'⟩ := hg.approvalDecision approval ha
  refine ⟨proposal, _, hg.actionProposal _ hp, ha', hd, ?_⟩
  rw [hg.workflowId]
  exact ht

theorem Tasked.workflowId (h : Tasked w t) : t.workflowId = w.workflowId := by
  obtain ⟨_, _, -, -, -, ht⟩ := h
  rw [ht]
  rfl

theorem Tasked.taskId (h : Tasked w t) : t.taskId = taskIdOf w.workflowId := by
  obtain ⟨_, _, -, -, -, ht⟩ := h
  rw [ht]
  rfl

theorem Tasked.proposalDigest (h : Tasked w t) {proposal : ToolActionProposal}
    (hp : w.actionProposal = some proposal) : t.proposalDigest = proposal.proposalDigest := by
  obtain ⟨proposal', _, hp', -, -, ht⟩ := h
  rw [hp] at hp'
  cases hp'
  rw [ht]
  rfl

theorem Tasked.idempotencyKey (h : Tasked w t) {proposal : ToolActionProposal}
    (hp : w.actionProposal = some proposal) :
    t.idempotencyKey = ticketKey w.workflowId proposal.proposalDigest := by
  obtain ⟨proposal', _, hp', -, -, ht⟩ := h
  rw [hp] at hp'
  cases hp'
  rw [ht]
  rfl

/-- The attempts of a task are its own business. -/
theorem Tasked.delivered (h : Tasked w t) (n : Nat) : Tasked w { t with deliveryAttempt := n } := by
  obtain ⟨proposal, approval, hp, ha, hd, ht⟩ := h
  exact ⟨proposal, approval, hp, ha, hd, by rw [ht]⟩

/-- A step keeps the record of its workflow, when the result it stores is that
record. -/
theorem Recorded.advance (h : Recorded w r) (hl : Lifecycle env w) (ha : Advance env call w w')
    (hx : ∀ r', w'.executionResult = some r' → r'.idempotencyKey = r.idempotencyKey → r' = r) :
    Recorded w' r := by
  have hg := hl.grows ha
  obtain ⟨proposal, approval, hp, hv, hd, hr, hk, hs⟩ := h
  obtain ⟨_, -, hv'⟩ := hg.approvalDecision approval hv
  refine ⟨proposal, _, hg.actionProposal _ hp, hv', hd, hr, by rw [hg.workflowId]; exact hk, ?_⟩
  rcases hs with hs | ⟨hs, -⟩
  · cases ha with
    | completeExecution _ _ bound _ key completed =>
      obtain ⟨_, -, rfl⟩ := completeExecution_ok completed
      rw [hp] at bound
      cases bound
      exact .inr ⟨rfl, congrArg some (hx _ rfl (key.trans hk.symm))⟩
    | plan _ status => rw [hs] at status; cases status
    | expireProposal _ status => rw [hs] at status; cases status
    | decide _ status => rw [hs] at status; cases status
    | expireApproval _ status => rw [hs] at status; cases status
    | beginExecution _ status => rw [hs] at status; cases status
  · exact absurd (.inr (.inr hs)) ha.not_final

end Records

/-! ## Storing a workflow -/

/-- The state with `w` stored under its id. -/
def State.put (s : State) (w : Workflow) : State :=
  { s with repository :=
    { s.repository with workflows := s.repository.workflows.set w.workflowId w } }

/-- The state with `w` stored under its id, which the idempotency key is bound to. -/
def State.insert (s : State) (w : Workflow) (key : String) : State :=
  { s with repository :=
    { workflows := s.repository.workflows.set w.workflowId w
      idempotency := s.repository.idempotency.set (w.ownerId, key) w.workflowId } }

section Store
variable {env : Environment} {call : Call} {s : State} {w w' : Workflow}

theorem put_stored (s : State) (w : Workflow) (id : String) :
    (s.put w).stored id = if id = w.workflowId then some w else s.stored id :=
  s.repository.workflows.get?_set w.workflowId id w

theorem put_stored_self (s : State) (w : Workflow) : (s.put w).stored w.workflowId = some w := by
  rw [put_stored, if_pos rfl]

theorem insert_stored (s : State) (w : Workflow) (key id : String) :
    (s.insert w key).stored id = if id = w.workflowId then some w else s.stored id :=
  s.repository.workflows.get?_set w.workflowId id w

theorem insert_stored_self (s : State) (w : Workflow) (key : String) :
    (s.insert w key).stored w.workflowId = some w := by
  rw [insert_stored, if_pos rfl]

theorem insert_bound (s : State) (w : Workflow) (key owner key' : String) :
    (s.insert w key).bound owner key' =
      if (owner, key') = (w.ownerId, key) then some w.workflowId else s.bound owner key' :=
  s.repository.idempotency.get?_set (w.ownerId, key) (owner, key') w.workflowId

/-- A step of a stored workflow keeps the stores consistent, when the result it
stores is on record. -/
theorem Consistent.put (h : Consistent env s) (hw : s.stored w'.workflowId = some w)
    (ha : Advance env call w w')
    (hx : ∀ r, w'.executionResult = some r → s.record r.idempotencyKey = some r) :
    Consistent env (s.put w') := by
  obtain ⟨-, hl, hn⟩ := h.stored hw
  have hg := hl.grows ha
  have old : ∀ {id v}, s.stored id = some v →
      ∃ v', (s.put w').stored id = some v' ∧ Grows v v' := by
    intro id v hv
    rw [put_stored]
    split
    · rename_i he
      rw [he, hw] at hv
      cases hv
      exact ⟨w', rfl, hg⟩
    · exact ⟨v, hv, .refl v⟩
  refine ⟨?_, ?_, ?_, h.order, h.mem_order, ?_, ?_, ?_⟩
  · intro id v hv
    rw [put_stored] at hv
    split at hv
    · rename_i he
      cases hv
      exact ⟨he.symm, hl.advance ha, he ▸ hn⟩
    · exact h.stored hv
  · intro owner key id hb
    obtain ⟨v, hv, ho⟩ := h.bound hb
    obtain ⟨v', hv', hg'⟩ := old hv
    exact ⟨v', hv', hg'.ownerId.trans ho⟩
  · intro k t ht
    obtain ⟨hk, v, hv, ht⟩ := h.queued ht
    obtain ⟨v', hv', hg'⟩ := old hv
    exact ⟨hk, v', hv', ht.mono hg'⟩
  · intro k hk
    obtain ⟨id, v, hid, hv, hs⟩ := h.retired hk
    refine ⟨id, v, hid, ?_, hs⟩
    rw [put_stored, if_neg]
    · exact hv
    · intro he
      rw [he, hw] at hv
      cases hv
      exact ha.not_final (hs.elim (fun hs => .inr (.inr hs)) fun hs => .inr (.inl hs))
  · intro key r hr
    obtain ⟨hk, id, v, hv, hrec⟩ := h.recorded hr
    refine ⟨hk, id, ?_⟩
    rw [put_stored]
    split
    · rename_i he
      rw [he, hw] at hv
      cases hv
      refine ⟨w', rfl, hrec.advance hl ha fun r' hr' hk' => ?_⟩
      have := hx r' hr'
      rw [hk', hk] at this
      exact Option.some.inj (this.symm.trans hr)
    · exact ⟨v, hv, hrec⟩
  · intro id v r hv hr
    rw [put_stored] at hv
    split at hv
    · cases hv
      exact hx r hr
    · exact h.ticketed hv hr

theorem Evolve.put (hw : s.stored w'.workflowId = some w) (ha : Advance env call w w') :
    Evolve env s (s.put w') := by
  refine { Evolve.refl env s with stored := fun {id v} hv => ?_ }
  rw [put_stored]
  split
  · rename_i he
    rw [he, hw] at hv
    cases hv
    exact ⟨w', rfl, .single ⟨call, ha⟩⟩
  · exact ⟨v, hv, .refl⟩

/-- A new workflow under a fresh id keeps the stores consistent. -/
theorem Consistent.insert {r : CreateRequest} {id key : String} {now : Datetime}
    (h : Consistent env s) (ha : r.Admitted env) (hf : s.stored id = none)
    (hn : ∃ n < s.issued.length, env.idFactory n = id) :
    Consistent env (s.insert (r.received env id now) key) := by
  have old : ∀ {id' v}, s.stored id' = some v →
      (s.insert (r.received env id now) key).stored id' = some v := by
    intro id' v hv
    rw [insert_stored, if_neg]
    · exact hv
    · intro he
      rw [he] at hv
      exact absurd (hf.symm.trans hv) nofun
  refine ⟨?_, ?_, ?_, h.order, h.mem_order, ?_, ?_, ?_⟩
  · intro id' v hv
    rw [insert_stored] at hv
    split at hv
    · rename_i he
      cases hv
      exact ⟨he.symm, .receive ha, he ▸ hn⟩
    · exact h.stored hv
  · intro owner key' id' hb
    rw [insert_bound] at hb
    split at hb
    · rename_i he
      cases hb
      refine ⟨r.received env id now, ?_, (Prod.mk.inj he).1.symm⟩
      rw [insert_stored, if_pos rfl]
    · obtain ⟨v, hv, ho⟩ := h.bound hb
      exact ⟨v, old hv, ho⟩
  · intro k t ht
    obtain ⟨hk, v, hv, ht⟩ := h.queued ht
    exact ⟨hk, v, old hv, ht⟩
  · intro k hk
    obtain ⟨id', v, hid, hv, hs⟩ := h.retired hk
    exact ⟨id', v, hid, old hv, hs⟩
  · intro key' r' hr
    obtain ⟨hk, id', v, hv, hrec⟩ := h.recorded hr
    exact ⟨hk, id', v, old hv, hrec⟩
  · intro id' v r' hv hr
    rw [insert_stored] at hv
    split at hv
    · cases hv
      cases hr
    · exact h.ticketed hv hr

theorem Evolve.insert {key : String} (hf : s.stored w.workflowId = none)
    (hb : s.bound w.ownerId key = none) : Evolve env s (s.insert w key) := by
  refine { Evolve.refl env s with stored := fun {id v} hv => ?_, bound := fun {o k id} hi => ?_ }
  · rw [insert_stored, if_neg]
    · exact ⟨v, hv, .refl⟩
    · intro he
      rw [he] at hv
      exact absurd (hf.symm.trans hv) nofun
  · rw [insert_bound, if_neg]
    · exact hi
    · intro he
      obtain ⟨rfl, rfl⟩ := Prod.mk.inj he
      exact absurd (hb.symm.trans hi) nofun

end Store

end AgenticDelivery.Api
