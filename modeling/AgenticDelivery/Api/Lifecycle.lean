import Mathlib.Logic.Relation
import AgenticDelivery.Api.Service

/-! # The life of one workflow

An abstract machine for one workflow: which call may take which step, under
which guards, and what it stores. It knows nothing of repositories, queues or
interleavings; the invariant of the service says that every stored workflow is
a state of this machine, and that it moves along its steps only. -/
namespace AgenticDelivery.Api
open AgenticDelivery.Governance AgenticDelivery.Runtime

/-! ## Who may take a step -/

def Principal.MayPlan (p : Principal) (w : Workflow) : Prop :=
  w.ownerId = p.subject ∨ .administrator ∈ p.roles

def Principal.MayDecide (p : Principal) (w : Workflow) : Prop :=
  p.roles ∩ {.reviewer, .administrator} ≠ ∅ ∧ w.ownerId ≠ p.subject

def Principal.MayProcess (p : Principal) : Prop := p.roles ∩ {.operator, .administrator} ≠ ∅

/-- One step in the life of a workflow, by the call that takes it. -/
inductive Advance (env : Environment) : Call → Workflow → Workflow → Prop
  | plan {principal correlationId w n result now transitionedAt}
      (authorised : principal.MayPlan w) (status : w.status = .received)
      (unplanned : w.planningResult = none)
      (allowed : (env.policy (planningContext w.processingContext)).executionAllowed = true)
      (answer : env.runtime n (WorkflowService.planningInput w correlationId) = .ok result) :
      Advance env (.plan principal w.workflowId correlationId) w
        (w.applyPlanningResult result (env.policy (planningContext w.processingContext))
          (createToolProposal env.ticketSchema w.workflowId result now) transitionedAt)
  | expireProposal {principal decision reason key correlationId w proposal now}
      (authorised : principal.MayDecide w) (status : w.status = .awaitingApproval)
      (undecided : w.approvalDecision = none) (pending : w.actionProposal = some proposal)
      (late : proposal.expiresAt < now) :
      Advance env (.decideApproval principal w.workflowId decision reason key correlationId) w
        (w.expire now)
  | decide {principal decision reason key correlationId w proposal now}
      (authorised : principal.MayDecide w) (status : w.status = .awaitingApproval)
      (undecided : w.approvalDecision = none) (pending : w.actionProposal = some proposal)
      (inTime : now ≤ proposal.expiresAt) :
      Advance env (.decideApproval principal w.workflowId decision reason key correlationId) w
        (w.recordApproval
          (createApprovalDecision proposal principal.subject decision reason key now) now)
  | expireApproval {principal correlationId w approval now}
      (authorised : principal.MayProcess) (status : w.status = .approved)
      (decided : w.approvalDecision = some approval) (late : approval.expiresAt < now) :
      Advance env (.processNextTask principal correlationId) w (w.expire now)
  | beginExecution {principal correlationId w approval now}
      (authorised : principal.MayProcess) (status : w.status = .approved)
      (decided : w.approvalDecision = some approval) (inTime : now ≤ approval.expiresAt)
      (allowed : (env.policy (executionContext w.processingContext)).executionAllowed = true) :
      Advance env (.processNextTask principal correlationId) w
        (w.beginExecution (env.policy (executionContext w.processingContext))
          (executionContext w.processingContext) now)
  | completeExecution {principal correlationId w w' proposal result now}
      (authorised : principal.MayProcess) (status : w.status = .executing)
      (bound : w.actionProposal = some proposal)
      (digest : result.proposalDigest = proposal.proposalDigest)
      (key : result.idempotencyKey = ticketKey w.workflowId proposal.proposalDigest)
      (completed : w.completeExecution result now = .ok w') :
      Advance env (.processNextTask principal correlationId) w w'

/-- The workflow a `create` call stores when its payload is new. -/
def CreateRequest.received (r : CreateRequest) (env : Environment) (workflowId : String)
    (now : Datetime) : Workflow :=
  let normalizedRequest := Data.normalizeRequest r.request
  let context := r.intakeContext (env.classifier normalizedRequest r.declaredCategories)
  Workflow.receive workflowId r.principal.subject normalizedRequest (env.lower r.requestedLocale)
    r.correlationId context (env.policy context) now

/-- The checks of `create`: a role, the reviewed overlay and the policy. -/
structure CreateRequest.Admitted (r : CreateRequest) (env : Environment) : Prop where
  role : r.principal.roles ∩ {.requester, .administrator} ≠ ∅
  overlay : r.overlayIds.toFinset = {"common-us-baseline"}
  policy : (env.policy (r.intakeContext (env.classifier (Data.normalizeRequest r.request)
    r.declaredCategories))).executionAllowed = true

/-- The states of the machine. -/
inductive Lifecycle (env : Environment) : Workflow → Prop
  | receive {r : CreateRequest} {workflowId now} (admitted : r.Admitted env) :
      Lifecycle env (r.received env workflowId now)
  | advance {call w w'} (h : Lifecycle env w) (ha : Advance env call w w') : Lifecycle env w'

/-- `w'` is `w` or a later state of the same workflow. -/
def Later (env : Environment) : Workflow → Workflow → Prop :=
  Relation.ReflTransGen fun w w' => ∃ call, Advance env call w w'

/-- The states nothing leads out of. -/
def WorkflowState.Final (s : WorkflowState) : Prop :=
  s = .rejected ∨ s = .expired ∨ s = .completed

instance (s : WorkflowState) : Decidable s.Final :=
  inferInstanceAs (Decidable (_ ∨ _ ∨ _))

/-- How far a stored status is on the way; every step goes on. -/
def WorkflowState.rank : WorkflowState → Nat
  | .awaitingApproval => 1
  | .approved | .rejected => 2
  | .executing => 3
  | .expired | .completed => 4
  | _ => 0

/-- The pairs of statuses the steps join. -/
def statusSteps : List (WorkflowState × WorkflowState) :=
  [(.received, .awaitingApproval), (.awaitingApproval, .approved), (.awaitingApproval, .rejected),
    (.awaitingApproval, .expired), (.approved, .expired), (.approved, .executing),
    (.executing, .completed)]

variable {env : Environment} {call : Call} {w w' w'' : Workflow}

theorem completeExecution_ok {result : ToolExecutionResult} {now : Datetime}
    (h : w.completeExecution result now = .ok w') : ∃ approval, w.approvalDecision = some approval ∧
      w' = { w with
        status := .completed
        stateVersion := w.stateVersion + 2
        transitions := w.transitions ++
          [⟨some w.status, .evaluating, now, .system⟩,
            ⟨some .evaluating, .completed, now, .system⟩]
        approvalDecision := some { approval with consumedAt := some now }
        executionResult := some result } := by
  cases ha : w.approvalDecision with
  | none => simp [Workflow.completeExecution, ha] at h
  | some approval =>
    simp only [Workflow.completeExecution, ha, Except.ok.injEq] at h
    exact ⟨approval, rfl, h.symm⟩

namespace Advance

/-- The statuses before and after a step. -/
theorem status_step (h : Advance env call w w') : (w.status, w'.status) ∈ statusSteps := by
  cases h with
  | plan _ status =>
    rw [status]
    exact (by decide : (.received, .awaitingApproval) ∈ statusSteps)
  | expireProposal _ status =>
    rw [status]
    exact (by decide : (.awaitingApproval, .expired) ∈ statusSteps)
  | @decide _ d _ _ _ _ _ _ _ status =>
    rw [status]
    cases d with
    | approved => exact (by decide : (.awaitingApproval, .approved) ∈ statusSteps)
    | rejected => exact (by decide : (.awaitingApproval, .rejected) ∈ statusSteps)
  | expireApproval _ status =>
    rw [status]
    exact (by decide : (.approved, .expired) ∈ statusSteps)
  | beginExecution _ status =>
    rw [status]
    exact (by decide : (.approved, .executing) ∈ statusSteps)
  | completeExecution _ status _ _ _ completed =>
    obtain ⟨_, -, rfl⟩ := completeExecution_ok completed
    rw [status]
    exact (by decide : (.executing, .completed) ∈ statusSteps)

/-- No step leaves a final state. -/
theorem not_final (h : Advance env call w w') : ¬w.status.Final := by
  have hs : ∀ p ∈ statusSteps, ¬p.1.Final := by decide
  exact hs _ h.status_step

theorem version_lt (h : Advance env call w w') : w.stateVersion < w'.stateVersion := by
  cases h with
  | plan => simp only [Workflow.applyPlanningResult]; omega
  | expireProposal => simp only [Workflow.expire]; omega
  | decide => simp only [Workflow.recordApproval]; omega
  | expireApproval => simp only [Workflow.expire]; omega
  | beginExecution => simp only [Workflow.beginExecution]; omega
  | completeExecution _ _ _ _ _ completed =>
    obtain ⟨_, -, rfl⟩ := completeExecution_ok completed
    simp

theorem rank_lt (h : Advance env call w w') : w.status.rank < w'.status.rank := by
  have hs : ∀ p ∈ statusSteps, p.1.rank < p.2.rank := by decide
  exact hs _ h.status_step

/-- Where the approval of a later state comes from: it was there, up to its
consumption, or the call of this step has decided. -/
theorem approval_cases (h : Advance env call w w') {a : ApprovalDecision}
    (ha : w'.approvalDecision = some a) :
    (∃ a₀, w.approvalDecision = some a₀ ∧
      { a₀ with consumedAt := none } = { a with consumedAt := none }) ∨
    (∃ principal reason key correlationId,
      call = .decideApproval principal w.workflowId a.decision reason key correlationId ∧
      principal.MayDecide w ∧ principal.subject = a.reviewerId ∧ a.consumedAt = none) := by
  cases h with
  | decide authorised =>
    cases ha
    exact .inr ⟨_, _, _, _, rfl, authorised, rfl, rfl⟩
  | completeExecution _ _ _ _ _ completed =>
    obtain ⟨a₀, ha₀, rfl⟩ := completeExecution_ok completed
    cases ha
    exact .inl ⟨a₀, ha₀, rfl⟩
  | _ => exact .inl ⟨a, ha, rfl⟩

/-- Where the planning result of a later state comes from. -/
theorem planning_cases (h : Advance env call w w') {result : PlanningResult}
    (hr : w'.planningResult = some result) :
    w.planningResult = some result ∨
    (∃ principal correlationId, call = .plan principal w.workflowId correlationId ∧
      principal.MayPlan w) := by
  cases h with
  | plan authorised => exact .inr ⟨_, _, rfl, authorised⟩
  | completeExecution _ _ _ _ _ completed =>
    obtain ⟨_, -, rfl⟩ := completeExecution_ok completed
    exact .inl hr
  | _ => exact .inl hr

end Advance

/-- What every step increases tells a later state from an earlier one. -/
theorem Later.eq_or_lt (hl : Later env w w') (f : Workflow → Nat)
    (hf : ∀ {call w w'}, Advance env call w w' → f w < f w') : w = w' ∨ f w < f w' := by
  induction hl with
  | refl => exact .inl rfl
  | tail _ ha ih =>
    obtain ⟨_, ha⟩ := ha
    rcases ih with rfl | ih
    · exact .inr (hf ha)
    · exact .inr (Nat.lt_trans ih (hf ha))

end AgenticDelivery.Api
