import AgenticDelivery.Api.Sequential

/-! # Failed calls

A call that raises has written nothing, except for the attempt of the task it has
claimed, and except for the expiry that it reports. -/
namespace AgenticDelivery.Api
open AgenticDelivery.Atomic AgenticDelivery.Data AgenticDelivery.Governance AgenticDelivery.Runtime

variable {env : Environment} {n : Nat} {s s' : State} {call : Call} {w : Workflow}
  {clock : Nat → Datetime × Datetime}

/-- The class of an application error. -/
def Failure.kind : Failure → Option ErrorKind
  | .application kind _ => some kind
  | _ => none

theorem refusal_kind (decision : PolicyDecision) :
    (refusal decision).kind = some .dataProcessingDenied ∨ (refusal decision).kind = none := by
  unfold refusal
  cases decision.reasons.head? with
  | none => exact .inr rfl
  | some reason => exact .inl rfl

/-- The order of the queue is the same, and its tasks differ at most in the attempt
of the one that was claimed. -/
structure SameTasks (s s' : State) : Prop where
  order : s'.taskQueue.order = s.taskQueue.order
  tasks : s'.taskQueue.tasks = s.taskQueue.tasks ∨ ∃ k t,
    s.taskQueue.pending.head? = some k ∧ s.taskQueue.tasks.get? k = some t ∧
      s'.taskQueue.tasks =
        s.taskQueue.tasks.set k { t with deliveryAttempt := t.deliveryAttempt + 1 }

/-- No store was written, except for the attempt of the task that was claimed. -/
structure Intact (s s' : State) : Prop where
  repository : s'.repository = s.repository
  toolExecutor : s'.toolExecutor = s.toolExecutor
  completed : s'.taskQueue.completed = s.taskQueue.completed
  queue : SameTasks s s'

/-- At `now` the workflow waits for a decision or a delivery, and it is too late. -/
def Late (w : Workflow) (now : Datetime) : Prop :=
  (w.status = .awaitingApproval ∧ ∃ proposal, w.actionProposal = some proposal ∧
    proposal.expiresAt < now) ∨
  (w.status = .approved ∧ ∃ approval, w.approvalDecision = some approval ∧
    approval.expiresAt < now)

/-- Besides, the workflow `w`, which was late at a time the call has read, was stored
as expired with one more transition; a delivery has completed its task. -/
structure OnlyExpired (s s' : State) (call : Call) (clock : Nat → Datetime × Datetime)
    (w : Workflow) : Prop where
  stored : s.stored w.workflowId = some w
  expired : ∃ i, Late w (clock i).1 ∧ s'.repository = (s.put (w.expire (clock i).1)).repository ∧
    (w.expire (clock i).1).status = .expired ∧
    ∃ t, (w.expire (clock i).1).transitions = w.transitions ++ [t]
  toolExecutor : s'.toolExecutor = s.toolExecutor
  completed : s'.taskQueue.completed =
    match call with
    | .processNextTask .. => insert (taskIdOf w.workflowId) s.taskQueue.completed
    | _ => s.taskQueue.completed
  queue : SameTasks s s'

/-! ## One end at a time -/

theorem SameStores.intact (h : SameStores s s') : Intact s s' where
  repository := h.repository
  toolExecutor := h.toolExecutor
  completed := by rw [h.taskQueue]
  queue := ⟨by rw [h.taskQueue], .inl (by rw [h.taskQueue])⟩

theorem NextTask.sameTasks {p : Principal} {task : ExecutionTask} (h : NextTask s p task w)
    (ho : s'.taskQueue.order = s.taskQueue.order)
    (ht : s'.taskQueue.tasks = s.taskQueue.tasks.set task.taskId task) : SameTasks s s' := by
  obtain ⟨t, hq, htask⟩ := h.queued
  exact ⟨ho, .inr ⟨task.taskId, t, h.head, hq, by rw [ht, ← htask]⟩⟩

theorem NextTask.intact {p : Principal} {task : ExecutionTask} (h : NextTask s p task w)
    (hs : SameStores (s.claim task) s') : Intact s s' where
  repository := hs.repository
  toolExecutor := hs.toolExecutor
  completed := by rw [hs.taskQueue]; rfl
  queue := h.sameTasks (by rw [hs.taskQueue]; rfl) (by rw [hs.taskQueue]; rfl)

/-- The task of a stored proposal is not bound to another one, unless identifiers
collide. -/
theorem not_misbound (hc : Consistent env s) (hd : TaskIdsDistinct s) {id : String}
    (hw : s.stored id = some w) {proposal : ToolActionProposal}
    (hp : w.actionProposal = some proposal) :
    ¬s.Misbound (createExecutionTask w.workflowId proposal.proposalDigest) := by
  obtain ⟨rfl, -⟩ := hc.stored hw
  rintro ⟨t, ht, hne⟩
  obtain ⟨-, -, htw⟩ := tasked_of_taskIdOf hc hd hw ht
  exact hne (htw.proposalDigest hp)

/-- **A failed call leaves the state intact.** In a sequential run whose task
identifiers do not collide, a call that raises anything but `ApprovalExpired` has
changed no workflow, no idempotency key, no execution record, and of the queue at
most the attempt of the one task it claimed. One that raises `ApprovalExpired` has
besides stored the late workflow as expired, and completed its task if it was a
delivery. -/
theorem failed_call_intact (hf : Function.Injective env.idFactory) (h : Sequential env n s)
    (hd : TaskIdsDistinct s) {e : Failure} (he : (answer env n s call clock).1 = .error e) :
    (e.kind ≠ some .approvalExpired → Intact s (answer env n s call clock).2) ∧
    (e.kind = some .approvalExpired →
      ∃ w, OnlyExpired s (answer env n s call clock).2 call clock w) := by
  have hc := h.consistent hf
  obtain ⟨left, outcomes, hx, hs, -⟩ := h.ends hf call clock
  rw [he] at hx
  generalize answer env n s call clock = r at he hs ⊢
  -- an end that reports no expiry, before any write or after a claim
  have kept : left = s → e.kind ≠ some .approvalExpired →
      (e.kind ≠ some .approvalExpired → Intact s r.2) ∧
      (e.kind = some .approvalExpired → ∃ w, OnlyExpired s r.2 call clock w) := by
    rintro rfl hk
    exact ⟨fun _ => hs.intact, fun hk' => absurd hk' hk⟩
  have claimed : ∀ {p task w}, NextTask s p task w → left = s.claim task →
      e.kind ≠ some .approvalExpired →
      (e.kind ≠ some .approvalExpired → Intact s r.2) ∧
      (e.kind = some .approvalExpired → ∃ w, OnlyExpired s r.2 call clock w) := by
    rintro p task w hnext rfl hk
    exact ⟨fun _ => hnext.intact hs, fun hk' => absurd hk' hk⟩
  have refused : ∀ decision, (refusal decision).kind ≠ some .approvalExpired := by
    intro decision hk
    rcases refusal_kind decision with hk' | hk' <;> rw [hk'] at hk <;> cases hk
  cases hx with
  | createDenied => exact kept rfl nofun
  | overlayUnavailable => exact kept rfl nofun
  | intakeRefused => exact kept rfl (refused _)
  | createConflict => exact kept rfl nofun
  | readHidden => exact kept rfl nofun
  | planHidden => exact kept rfl nofun
  | planningRefused => exact kept rfl (refused _)
  | injectionRejected => exact kept rfl nofun
  | gateRejected => exact kept rfl nofun
  | runtimeFailed => exact kept rfl nofun
  | decideDenied => exact kept rfl nofun
  | decideMissing => exact kept rfl nofun
  | selfApproval => exact kept rfl nofun
  | decidedByOther => exact kept rfl nofun
  | decidedOtherwise => exact kept rfl nofun
  | replayMisbound => exact kept rfl nofun
  | notPending => exact kept rfl nofun
  | proposalExpired opened late =>
    obtain ⟨rfl, -⟩ := hc.stored opened.stored
    refine ⟨fun hk => absurd rfl hk, fun _ => ⟨_, opened.stored,
      ⟨1, ?_, hs.repository, rfl, _, rfl⟩, hs.toolExecutor,
      by rw [hs.taskQueue]; rfl, by rw [hs.taskQueue]; rfl, .inl (by rw [hs.taskQueue]; rfl)⟩⟩
    exact .inl ⟨opened.status, _, opened.proposal, late⟩
  | decidedMisbound opened _ misbound =>
    exact absurd misbound (not_misbound hc hd opened.stored opened.proposal)
  | processDenied => exact kept rfl nofun
  | nothingPending => exact kept rfl nofun
  | deliveredStale next => exact claimed next rfl nofun
  | approvalExpired next status approval_ late =>
    have hw := next.stored
    rw [next.tasked.workflowId] at hw
    refine ⟨fun hk => absurd rfl hk, fun _ => ⟨_, hw, ⟨2, ?_, hs.repository, rfl, _, rfl⟩,
      hs.toolExecutor, ?_, next.sameTasks (by rw [hs.taskQueue]; rfl)
        (by rw [hs.taskQueue]; rfl)⟩⟩
    · exact .inr ⟨status, _, approval_, late⟩
    · rw [hs.taskQueue, ← next.tasked.taskId]
      rfl
  | executionRefused next => exact claimed next rfl (refused _)

/-- The request of the examples, approved and not yet delivered. -/
def approvedState : State := serve sampleEnv 0 { now := 0, utc := 0 } (sampleCalls.take 3)

/-- A delivery half an hour later finds the approval expired. -/
theorem failed_call_intact_late : ∃ w, OnlyExpired approvedState
    (answer sampleEnv 3 approvedState (.processNextTask localOperator "c-4")
      fun _ => (minutes 30, 0)).2 (.processNextTask localOperator "c-4")
      (fun _ => (minutes 30, 0)) w := by
  have he : (answer sampleEnv 3 approvedState (.processNextTask localOperator "c-4")
      fun _ => (minutes 30, 0)).1 = .error (.application .approvalExpired
        "The approval expired before task execution.") := by decide +kernel
  have hkeys : approvedState.repository.workflows.entries.map Prod.fst = ["w"] := by
    decide
  exact (failed_call_intact sampleId_injective (sequential_serve sampleEnv 0 0 (sampleCalls.take 3))
    (taskIdsDistinct_of_keys hkeys) he).2 rfl

end AgenticDelivery.Api
