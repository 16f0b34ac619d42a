import AgenticDelivery.Api.Runs

/-! # The side effect

The ticket executor under any interleaving of calls, repeated deliveries and
crashes: one record for a workflow at most, only for approved work, and what a
delivery has checked when it makes one. -/
namespace AgenticDelivery.Api
open AgenticDelivery.Atomic AgenticDelivery.Data AgenticDelivery.Governance AgenticDelivery.Runtime

variable {env : Environment} {c : PoolConfig}

/-! ## At most once, and only when approved -/

/-- `r` is a record for `w`: its execution key names the workflow. -/
def RecordFor (w : Workflow) (r : ToolExecutionResult) : Prop :=
  r.idempotencyKey = ticketKey w.workflowId r.proposalDigest

instance (w : Workflow) (r : ToolExecutionResult) : Decidable (RecordFor w r) :=
  inferInstanceAs (Decidable (_ = _))

/-- All records of the executor. -/
def State.records (s : State) : List ToolExecutionResult := s.toolExecutor.executions.values

theorem mem_records {s : State} {r : ToolExecutionResult} :
    r ∈ s.records ↔ ∃ key, s.record key = some r := s.toolExecutor.executions.mem_values_iff

/-- A record for a stored workflow is the record that its status allows. -/
theorem recorded_of_recordFor {s : State} (h : Consistent env s) {id key : String} {w : Workflow}
    {r : ToolExecutionResult} (hw : s.stored id = some w) (hr : s.record key = some r)
    (hf : RecordFor w r) : Recorded w r := by
  obtain ⟨hk, id', w', hw', hrec⟩ := h.recorded hr
  obtain ⟨hid, -⟩ := h.stored hw
  obtain ⟨hid', -⟩ := h.stored hw'
  have hrec' := hrec
  obtain ⟨proposal, -, -, -, -, hd, hkey, -⟩ := hrec'
  have hww : w.workflowId = w'.workflowId := by
    rw [RecordFor, hkey, hd] at hf
    exact (ticketKey_inj_left hf).symm
  rw [hid, hid'] at hww
  rw [hww, hw'] at hw
  cases hw
  exact hrec

/-- A list with one element at most that holds `a` is `[a]`. -/
theorem eq_singleton_of_mem {α : Type} {a : α} {l : List α} (h : l.length ≤ 1) (ha : a ∈ l) :
    l = [a] := by
  obtain ⟨b, rfl⟩ := List.length_eq_one_iff.mp
    (Nat.le_antisymm h (List.length_pos_of_mem ha))
  rw [List.mem_singleton.mp ha]

theorem countP_records_le_one {s : State} (h : Consistent env s) {id : String} {w : Workflow}
    (hw : s.stored id = some w) : s.records.countP (RecordFor w) ≤ 1 := by
  -- all records for `w` are under the key of its proposal
  have hkey : ∃ k, ∀ key r, s.record key = some r → RecordFor w r → key = k := by
    cases hp : w.actionProposal with
    | none =>
      refine ⟨"", fun key r hr hfor => ?_⟩
      obtain ⟨_, _, hp', -⟩ := recorded_of_recordFor h hw hr hfor
      exact absurd (hp.symm.trans hp') nofun
    | some proposal =>
      refine ⟨ticketKey w.workflowId proposal.proposalDigest, fun key r hr hfor => ?_⟩
      obtain ⟨_, _, hp', -, -, -, hk, -⟩ := recorded_of_recordFor h hw hr hfor
      rw [hp] at hp'
      cases hp'
      rw [← hk, (h.recorded hr).1]
  obtain ⟨k, hk⟩ := hkey
  exact s.toolExecutor.executions.countP_values_le_one _ k fun key r hr hfor =>
    hk key r hr (of_decide_eq_true hfor)

/-- A completed workflow has its result on record, and no other record. -/
theorem filter_records_of_completed {s : State} (h : Consistent env s) {id : String} {w : Workflow}
    (hw : s.stored id = some w) (hs : w.status = .completed) :
    ∃ r, w.executionResult = some r ∧ s.records.filter (RecordFor w) = [r] := by
  have he := (h.stored hw).2.1.evidence
  rw [Evidence, hs] at he
  obtain ⟨-, -, proposal, r, hp, hx, hd, hk⟩ := he
  have hmem : r ∈ s.records.filter (RecordFor w) :=
    List.mem_filter.mpr ⟨mem_records.mpr ⟨_, h.ticketed hw hx⟩,
      decide_eq_true (by rw [RecordFor, hd]; exact hk)⟩
  refine ⟨r, hx, eq_singleton_of_mem ?_ hmem⟩
  rw [← List.countP_eq_length_filter]
  exact countP_records_le_one h hw

/-- **The executor holds one record for a workflow at most, and only for one
that is approved and executing or completed.** Every record belongs to a stored
workflow; on completion the stored result is the one record. -/
theorem record_of_approved (hf : Function.Injective env.idFactory) (hc : Reachable env c) :
    (∀ r ∈ c.state.records, ∃ id w, c.state.stored id = some w ∧ RecordFor w r) ∧
    ∀ id w, c.state.stored id = some w →
      c.state.records.countP (RecordFor w) ≤ 1 ∧
      (∀ r ∈ c.state.records, RecordFor w r → ∃ proposal approval,
        w.actionProposal = some proposal ∧ w.approvalDecision = some approval ∧
        approval.decision = .approved ∧ (w.status = .executing ∨ w.status = .completed) ∧
        r.proposalDigest = proposal.proposalDigest) ∧
      (w.status = .completed → ∃ r, w.executionResult = some r ∧
        c.state.records.filter (RecordFor w) = [r]) := by
  have h := hc.consistent hf
  refine ⟨?_, fun id w hw => ⟨countP_records_le_one h hw, ?_, filter_records_of_completed h hw⟩⟩
  · intro r hr
    obtain ⟨key, hr⟩ := mem_records.mp hr
    obtain ⟨-, id, w, hw, proposal, -, -, -, -, hd, hk, -⟩ := h.recorded hr
    exact ⟨id, w, hw, by rw [RecordFor, hd]; exact hk⟩
  · intro r hr hfor
    obtain ⟨key, hr⟩ := mem_records.mp hr
    obtain ⟨proposal, approval, hp, ha, hd, hdig, -, hs⟩ := recorded_of_recordFor h hw hr hfor
    exact ⟨proposal, approval, hp, ha, hd, hs.imp_right And.left, hdig⟩

/-- The completed request of the examples has its record. -/
theorem record_of_approved_completedRun :
    ∃ w r, ((system sampleEnv).play (initial 0 0) completedRun).state.stored "w" = some w ∧
      w.executionResult = some r ∧
      ((system sampleEnv).play (initial 0 0) completedRun).state.records.filter (RecordFor w) =
        [r] := by
  obtain ⟨w, hw, hs, -⟩ := completedRun_stored
  obtain ⟨-, h⟩ := record_of_approved sampleId_injective
    (reachable_play sampleEnv 0 0 completedRun)
  obtain ⟨r, hx, hr⟩ := (h "w" w hw).2.2 hs
  exact ⟨w, r, hw, hx, hr⟩

/-! ## What a delivery has checked -/

/-- The arguments of `execute`, for a caller that is about to call it. -/
def nextExecute : Service Workflow → Option (ExecutionTask × ToolActionProposal × Datetime)
  | .call (.execute task proposal now) _ => some (task, proposal, now)
  | _ => none

theorem nextExecute_eq {p : Service Workflow} {task : ExecutionTask}
    {proposal : ToolActionProposal} {now : Datetime}
    (h : nextExecute p = some (task, proposal, now)) :
    ∃ next, p = .call (.execute task proposal now) next := by
  unfold nextExecute at h
  split at h
  · cases h
    exact ⟨_, rfl⟩
  · cases h

/-- At `now` the approval of the task's workflow is unexpired, and the policy has
allowed tool execution to this very call. -/
def Governs (s : State) (log : List CallEvent) (task : ExecutionTask) (now : Datetime) : Prop :=
  ∃ w approval, s.stored task.workflowId = some w ∧ w.approvalDecision = some approval ∧
    now ≤ approval.expiresAt ∧ ∃ v ∈ verdicts log,
      v.1 = executionContext w.processingContext ∧ v.2.executionAllowed = true

/-- **A call of the executor, and so every new record, is governed exactly when
its delivery read the workflow as approved.** A delivery that read it as
executing asks neither clock nor policy. -/
theorem governs_iff_read_approved (hf : Function.Injective env.idFactory) (hc : Reachable env c)
    {tid : Nat} {t : Caller} {task : ExecutionTask} {proposal : ToolActionProposal}
    {now : Datetime} (ht : c.threads[tid]? = some t)
    (hnext : nextExecute t.rest = some (task, proposal, now)) :
    Governs c.state t.log task now ↔ ∃ w₀ ∈ reads t.log, w₀.status = .approved := by
  obtain ⟨next, hrest⟩ := nextExecute_eq hnext
  obtain ⟨principal, correlationId, w₀, w, -, -, hread, hw, h₀, hl, -, -, -, hclear⟩ :=
    hc.guar hf ht hrest
  rw [hread]
  constructor
  · rintro ⟨-, -, -, -, -, v, hv, -, -⟩
    rcases hclear with ⟨hs, -⟩ | ⟨-, hquiet⟩
    · exact ⟨w₀, List.mem_singleton.mpr rfl, hs⟩
    · rw [hquiet] at hv
      cases hv
  · rintro ⟨w₁, hw₁, hs⟩
    rw [List.mem_singleton.mp hw₁] at hs
    rcases hclear with ⟨-, ⟨approval, ha, hle⟩, hallowed, hv⟩ | ⟨hs', -⟩
    · have hg := hl.grows h₀
      obtain ⟨_, -, ha'⟩ := hg.approvalDecision approval ha
      refine ⟨w, _, hw, ha', hle, _, by rw [hv]; exact List.mem_singleton.mpr rfl, ?_, hallowed⟩
      exact hg.context.symm
    · rw [hs] at hs'
      cases hs'

/-- The first delivery of an approved task, stopped before the executor. -/
def stoppedDelivery : List (Move Call (Datetime × Datetime)) :=
  approvedRun ++ moves 3 (.processNextTask localOperator "c-4") 6

/-- A delivery in time is governed. -/
theorem governs_stoppedDelivery :
    ∃ t task proposal now,
      ((system sampleEnv).play (initial 0 0) stoppedDelivery).threads[3]? = some t ∧
      nextExecute t.rest = some (task, proposal, now) ∧
      Governs ((system sampleEnv).play (initial 0 0) stoppedDelivery).state t.log task now := by
  have h : (((system sampleEnv).play (initial 0 0) stoppedDelivery).threads[3]?.bind fun t =>
      (nextExecute t.rest).map fun _ => (reads t.log).map (·.status)) = some [.approved] := by
    decide +kernel
  obtain ⟨t, ht, h⟩ := Option.bind_eq_some_iff.mp h
  obtain ⟨⟨task, proposal, now⟩, hnext, hs⟩ := Option.map_eq_some_iff.mp h
  refine ⟨t, task, proposal, now, ht, hnext, (governs_iff_read_approved sampleId_injective
    (reachable_play sampleEnv 0 0 stoppedDelivery) ht hnext).mpr ?_⟩
  have hm : WorkflowState.approved ∈ (reads t.log).map (·.status) := by rw [hs]; decide
  exact List.mem_map.mp hm

/-- A worker stops after it has stored the workflow as executing; the task is
delivered again after the approval has expired. -/
def lateRedelivery : PoolConfig :=
  (system sampleEnv).play (initial 0 0) (stoppedDelivery ++ [.tick (minutes 16, minutes 16)] ++
    moves 4 (.processNextTask localOperator "c-5") 3)

/-- The late delivery is about to make a new record, and its next step makes it, on
an expired approval and without any call of the policy. -/
theorem lateRedelivery_not_governed :
    ∃ t task proposal now w approval, lateRedelivery.threads[4]? = some t ∧
      nextExecute t.rest = some (task, proposal, now) ∧
      lateRedelivery.state.record task.idempotencyKey = none ∧
      (((system sampleEnv).step lateRedelivery (.act 4)).state.record
        task.idempotencyKey).isSome = true ∧
      lateRedelivery.state.stored task.workflowId = some w ∧
      w.approvalDecision = some approval ∧ approval.expiresAt < now ∧ verdicts t.log = [] ∧
      ¬Governs lateRedelivery.state t.log task now := by
  have h : (lateRedelivery.threads[4]?.bind fun t => (nextExecute t.rest).bind fun a =>
      (lateRedelivery.state.stored a.1.workflowId).bind fun w => w.approvalDecision.map fun p =>
        decide (lateRedelivery.state.record a.1.idempotencyKey = none ∧
          (((system sampleEnv).step lateRedelivery (.act 4)).state.record
            a.1.idempotencyKey).isSome = true ∧
          p.expiresAt < a.2.2 ∧ verdicts t.log = [])) = some true := by decide +kernel
  obtain ⟨t, ht, h⟩ := Option.bind_eq_some_iff.mp h
  obtain ⟨⟨task, proposal, now⟩, hnext, h⟩ := Option.bind_eq_some_iff.mp h
  obtain ⟨w, hw, h⟩ := Option.bind_eq_some_iff.mp h
  obtain ⟨approval, ha, h⟩ := Option.map_eq_some_iff.mp h
  obtain ⟨hrec, hmade, hlate, hquiet⟩ := of_decide_eq_true h
  refine ⟨t, task, proposal, now, w, approval, ht, hnext, hrec, hmade, hw, ha, hlate, hquiet, ?_⟩
  rintro ⟨-, -, -, -, -, v, hv, -, -⟩
  rw [hquiet] at hv
  cases hv

end AgenticDelivery.Api
