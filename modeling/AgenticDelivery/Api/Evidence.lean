import Mathlib.Data.List.Infix
import AgenticDelivery.Api.Lifecycle

/-! # Evidence

What the status of a workflow says about the records it holds, and what no step
of its life ever changes. -/
namespace AgenticDelivery.Api
open AgenticDelivery.Governance AgenticDelivery.Runtime

variable {env : Environment} {call : Call} {w w' w'' : Workflow}

/-! ## The records of a status -/

/-- The planning result is there, and the proposal was made of it. -/
def Planned (env : Environment) (w : Workflow) : Prop :=
  ∃ result now, w.planningResult = some result ∧
    w.actionProposal = some (createToolProposal env.ticketSchema w.workflowId result now)

/-- Someone else than the owner took decision `d` in time, on the proposal the
workflow holds; it was consumed at `consumed`. -/
def Decided (w : Workflow) (d : Decision) (consumed : Option Datetime) : Prop :=
  ∃ proposal reviewer reason key now, w.actionProposal = some proposal ∧
    w.ownerId ≠ reviewer ∧ now ≤ proposal.expiresAt ∧
    w.approvalDecision = some { createApprovalDecision proposal reviewer d reason key now with
      consumedAt := consumed }

/-- The ticket is there, made for the proposal the workflow holds. -/
def Ticketed (w : Workflow) : Prop :=
  ∃ proposal result, w.actionProposal = some proposal ∧ w.executionResult = some result ∧
    result.proposalDigest = proposal.proposalDigest ∧
    result.idempotencyKey = ticketKey w.workflowId proposal.proposalDigest

/-- The records that a status stands for. -/
def Evidence (env : Environment) (w : Workflow) : Prop :=
  match w.status with
  | .received => w.planningResult = none ∧ w.actionProposal = none ∧ w.approvalDecision = none ∧
      w.executionResult = none
  | .awaitingApproval => Planned env w ∧ w.approvalDecision = none ∧ w.executionResult = none
  | .approved => Planned env w ∧ Decided w .approved none ∧ w.executionResult = none
  | .rejected => Planned env w ∧ Decided w .rejected none ∧ w.executionResult = none
  | .expired => Planned env w ∧ (w.approvalDecision = none ∨ Decided w .approved none) ∧
      w.executionResult = none
  | .executing => Planned env w ∧ Decided w .approved none ∧ w.executionResult = none
  | .completed => Planned env w ∧ (∃ now, Decided w .approved (some now)) ∧ Ticketed w
  | _ => False

/-! ## The governance decisions of a status -/

/-- How many governance decisions a status stands for. -/
def stage : WorkflowState → Nat
  | .received => 1
  | .executing | .completed => 3
  | _ => 2

/-- The contexts a workflow has put before the policy, oldest first. -/
def contexts (intake : ProcessingContext) (status : WorkflowState) : List ProcessingContext :=
  [intake, planningContext intake, executionContext intake].take (stage status)

/-- Every decision is the policy's answer on the relabelled intake context, and
allowed the step; the context at hand is the last one asked about. -/
def Governed (env : Environment) (w : Workflow) : Prop :=
  ∃ intake, intake.operation = .workflowIntake ∧ intake.subjectId = w.ownerId ∧
    w.governanceDecisions = (contexts intake w.status).map env.policy ∧
    (∀ d ∈ w.governanceDecisions, d.executionAllowed = true) ∧
    (contexts intake w.status).getLast? = some w.processingContext

namespace Lifecycle

/-- **Status determines the evidence.** -/
theorem evidence (h : Lifecycle env w) : Evidence env w := by
  induction h with
  | receive => exact ⟨rfl, rfl, rfl, rfl⟩
  | @advance _ w _ _ ha ih =>
    cases ha with
    | @plan _ _ _ _ result now transitionedAt _ status =>
      simp only [Evidence, status] at ih
      obtain ⟨-, -, ha, he⟩ := ih
      exact ⟨⟨result, now, rfl, rfl⟩, ha, he⟩
    | expireProposal _ status undecided =>
      simp only [Evidence, status] at ih
      exact ⟨ih.1, .inl undecided, ih.2.2⟩
    | @decide p d reason key _ _ proposal now authorised status undecided pending inTime =>
      simp only [Evidence, status] at ih
      have hd : Decided (w.recordApproval
          (createApprovalDecision proposal p.subject d reason key now) now) d none :=
        ⟨proposal, p.subject, reason, key, now, pending, authorised.2, inTime, rfl⟩
      cases d with
      | approved => exact ⟨ih.1, hd, ih.2.2⟩
      | rejected => exact ⟨ih.1, hd, ih.2.2⟩
    | expireApproval _ status =>
      simp only [Evidence, status] at ih
      exact ⟨ih.1, .inr ih.2.1, ih.2.2⟩
    | beginExecution _ status =>
      simp only [Evidence, status] at ih
      exact ⟨ih.1, ih.2.1, ih.2.2⟩
    | @completeExecution _ _ _ _ proposal result now _ status bound digest key completed =>
      simp only [Evidence, status] at ih
      obtain ⟨hp, ⟨proposal', reviewer, reason, ikey, at_, hb, ho, hi, ha⟩, -⟩ := ih
      obtain ⟨approval, ha', rfl⟩ := completeExecution_ok completed
      rw [ha] at ha'
      cases ha'
      exact ⟨hp, ⟨now, proposal', reviewer, reason, ikey, at_, hb, ho, hi, rfl⟩,
        ⟨proposal, result, bound, rfl, digest, key⟩⟩

/-- **The policy was asked before every stage.** -/
theorem governed (h : Lifecycle env w) : Governed env w := by
  induction h with
  | @receive r workflowId now admitted =>
    refine ⟨r.intakeContext (env.classifier (Data.normalizeRequest r.request)
      r.declaredCategories), rfl, rfl, rfl, ?_, rfl⟩
    intro d hd
    rw [List.mem_singleton.mp hd]
    exact admitted.policy
  | advance _ ha ih =>
    obtain ⟨intake, hi, ho, hd, hall, hl⟩ := ih
    cases ha with
    | plan _ status _ allowed =>
      rw [status] at hd hl
      cases hl
      refine ⟨_, hi, ho, ?_, ?_, rfl⟩
      · simp only [Workflow.applyPlanningResult, hd]; rfl
      · intro d hm
        rcases List.mem_append.mp hm with hm | hm
        · exact hall d hm
        · rw [List.mem_singleton.mp hm]; exact allowed
    | expireProposal _ status =>
      rw [status] at hd hl
      exact ⟨intake, hi, ho, hd, hall, hl⟩
    | @decide _ d _ _ _ _ _ _ _ status =>
      rw [status] at hd hl
      cases d with
      | approved => exact ⟨intake, hi, ho, hd, hall, hl⟩
      | rejected => exact ⟨intake, hi, ho, hd, hall, hl⟩
    | expireApproval _ status =>
      rw [status] at hd hl
      exact ⟨intake, hi, ho, hd, hall, hl⟩
    | beginExecution _ status _ _ allowed =>
      rw [status] at hd hl
      have hc : planningContext intake = _ := Option.some.inj hl
      refine ⟨intake, hi, ho, ?_, ?_, ?_⟩
      · simp only [Workflow.beginExecution, hd, ← hc]; rfl
      · intro d hm
        rcases List.mem_append.mp hm with hm | hm
        · exact hall d hm
        · rw [List.mem_singleton.mp hm]; exact allowed
      · simp only [Workflow.beginExecution, ← hc]; rfl
    | completeExecution _ status _ _ _ completed =>
      obtain ⟨_, -, rfl⟩ := completeExecution_ok completed
      rw [status] at hd hl
      exact ⟨intake, hi, ho, hd, hall, hl⟩

theorem planned (h : Lifecycle env w) {proposal : ToolActionProposal}
    (hp : w.actionProposal = some proposal) : Planned env w := by
  have he := h.evidence
  cases hs : w.status <;> rw [Evidence, hs] at he
  case received => rw [he.2.1] at hp; cases hp
  all_goals first | exact he.1 | exact he.elim

/-- An approval is a decision on the proposal the workflow holds. -/
theorem decided (h : Lifecycle env w) {approval : ApprovalDecision}
    (ha : w.approvalDecision = some approval) : ∃ d consumed, Decided w d consumed := by
  have he := h.evidence
  cases hs : w.status <;> rw [Evidence, hs] at he
  case received => rw [he.2.2.1] at ha; cases ha
  case awaitingApproval => rw [he.2.1] at ha; cases ha
  case expired =>
    rcases he.2.1 with hn | hd
    · rw [hn] at ha; cases ha
    · exact ⟨_, _, hd⟩
  case completed =>
    obtain ⟨-, ⟨now, hd⟩, -⟩ := he
    exact ⟨_, _, hd⟩
  all_goals first | exact ⟨_, _, he.2.1⟩ | exact he.elim

/-- A pending workflow has a proposal and no approval. -/
theorem pending (h : Lifecycle env w) (hs : w.status = .awaitingApproval) :
    w.approvalDecision = none ∧ ∃ proposal, w.actionProposal = some proposal := by
  have he := h.evidence
  rw [Evidence, hs] at he
  obtain ⟨⟨_, _, -, hp⟩, hn, -⟩ := he
  exact ⟨hn, _, hp⟩

/-- Past the pending state a workflow is decided or expired. -/
theorem settled (h : Lifecycle env w) (hr : 1 < w.status.rank) :
    w.approvalDecision ≠ none ∨ w.status = .expired := by
  have he := h.evidence
  have hd : ∀ {d consumed}, Decided w d consumed → w.approvalDecision ≠ none := by
    rintro _ _ ⟨_, _, _, _, _, -, -, -, ha⟩
    rw [ha]
    nofun
  cases hs : w.status <;> rw [Evidence, hs] at he <;> rw [hs] at hr
  case expired => exact .inr rfl
  case completed =>
    obtain ⟨-, ⟨_, hdec⟩, -⟩ := he
    exact .inl (hd hdec)
  all_goals first | exact .inl (hd he.2.1) | exact absurd hr (by decide)

/-- A ticket is there on completion only. -/
theorem no_ticket (h : Lifecycle env w) (hs : w.status ≠ .completed) :
    w.executionResult = none := by
  have he := h.evidence
  cases hw : w.status <;> rw [Evidence, hw] at he
  case received => exact he.2.2.2
  case completed => exact absurd hw hs
  all_goals first | exact he.2.2 | exact he.elim

/-- The digest of a stored proposal is a hexadecimal word. -/
theorem digest_colon (h : Lifecycle env w) {proposal : ToolActionProposal}
    (hp : w.actionProposal = some proposal) : ':' ∉ proposal.proposalDigest.toList := by
  obtain ⟨_, _, -, hp'⟩ := h.planned hp
  rw [hp] at hp'
  cases hp'
  exact Data.canonicalDigest_colon _

end Lifecycle

/-! ## What a workflow keeps -/

/-- An optional field that is written once keeps its value. -/
def WriteOnce {α : Type} (old new : Option α) : Prop := ∀ a, old = some a → new = some a

/-- From `w` to `w'` nothing that identifies the workflow changes, its context is
relabelled at most, its lists grow at the end, and its evidence is written once.
Of a stored approval only `consumedAt` changes, and only from nothing. -/
structure Grows (w w' : Workflow) : Prop where
  workflowId : w'.workflowId = w.workflowId
  ownerId : w'.ownerId = w.ownerId
  request : w'.request = w.request
  requestedLocale : w'.requestedLocale = w.requestedLocale
  createdAt : w'.createdAt = w.createdAt
  correlationId : w'.correlationId = w.correlationId
  context : executionContext w'.processingContext = executionContext w.processingContext
  transitions : w.transitions <+: w'.transitions
  governanceDecisions : w.governanceDecisions <+: w'.governanceDecisions
  planningResult : WriteOnce w.planningResult w'.planningResult
  actionProposal : WriteOnce w.actionProposal w'.actionProposal
  executionResult : WriteOnce w.executionResult w'.executionResult
  approvalDecision : ∀ a, w.approvalDecision = some a →
    ∃ consumed, WriteOnce a.consumedAt consumed ∧
      w'.approvalDecision = some { a with consumedAt := consumed }

theorem WriteOnce.refl {α : Type} (a : Option α) : WriteOnce a a := fun _ h => h

theorem WriteOnce.trans {α : Type} {a b c : Option α} (h : WriteOnce a b) (h' : WriteOnce b c) :
    WriteOnce a c := fun x hx => h' x (h x hx)

theorem WriteOnce.of_none {α : Type} {a b : Option α} (h : a = none) : WriteOnce a b :=
  fun x hx => by rw [h] at hx; cases hx

namespace Grows

theorem refl (w : Workflow) : Grows w w where
  workflowId := rfl
  ownerId := rfl
  request := rfl
  requestedLocale := rfl
  createdAt := rfl
  correlationId := rfl
  context := rfl
  transitions := List.prefix_rfl
  governanceDecisions := List.prefix_rfl
  planningResult := .refl _
  actionProposal := .refl _
  executionResult := .refl _
  approvalDecision a h := ⟨a.consumedAt, .refl _, h⟩

theorem trans (h : Grows w w') (h' : Grows w' w'') : Grows w w'' where
  workflowId := h'.workflowId.trans h.workflowId
  ownerId := h'.ownerId.trans h.ownerId
  request := h'.request.trans h.request
  requestedLocale := h'.requestedLocale.trans h.requestedLocale
  createdAt := h'.createdAt.trans h.createdAt
  correlationId := h'.correlationId.trans h.correlationId
  context := h'.context.trans h.context
  transitions := h.transitions.trans h'.transitions
  governanceDecisions := h.governanceDecisions.trans h'.governanceDecisions
  planningResult := h.planningResult.trans h'.planningResult
  actionProposal := h.actionProposal.trans h'.actionProposal
  executionResult := h.executionResult.trans h'.executionResult
  approvalDecision a ha := by
    obtain ⟨c, hc, ha'⟩ := h.approvalDecision a ha
    obtain ⟨c', hc', ha''⟩ := h'.approvalDecision _ ha'
    exact ⟨c', hc.trans hc', ha''⟩

/-- The relabelling leaves the data profile alone. -/
theorem dataProfile (h : Grows w w') :
    w'.processingContext.dataProfile = w.processingContext.dataProfile := by
  have hd := congrArg (·.dataProfile) h.context
  exact hd

theorem expire (w : Workflow) (now : Datetime) : Grows w (w.expire now) :=
  { Grows.refl w with transitions := List.prefix_append _ _ }

end Grows

/-- **Every step only adds.** -/
theorem Lifecycle.grows (h : Lifecycle env w) (ha : Advance env call w w') : Grows w w' := by
  have he := h.evidence
  cases ha with
  | plan _ status unplanned =>
    simp only [Evidence, status] at he
    exact { Grows.refl w with
      transitions := List.prefix_append _ _
      governanceDecisions := List.prefix_append _ _
      planningResult := .of_none unplanned
      actionProposal := .of_none he.2.1 }
  | expireProposal => exact .expire w _
  | decide _ _ undecided =>
    exact { Grows.refl w with
      transitions := List.prefix_append _ _
      approvalDecision := fun a ha => by rw [undecided] at ha; cases ha }
  | expireApproval => exact .expire w _
  | beginExecution =>
    exact { Grows.refl w with
      transitions := List.prefix_append _ _
      governanceDecisions := List.prefix_append _ _ }
  | completeExecution _ status _ _ _ completed =>
    simp only [Evidence, status] at he
    obtain ⟨-, ⟨_, _, _, _, _, -, -, -, hd⟩, hn⟩ := he
    obtain ⟨approval, hd', rfl⟩ := completeExecution_ok completed
    rw [hd] at hd'
    cases hd'
    exact { Grows.refl w with
      transitions := List.prefix_append _ _
      executionResult := .of_none hn
      approvalDecision := fun a ha => by
        rw [hd] at ha
        cases ha
        exact ⟨_, .of_none rfl, rfl⟩ }

theorem Lifecycle.later (h : Lifecycle env w) (hl : Later env w w') : Lifecycle env w' := by
  induction hl with
  | refl => exact h
  | tail _ ha ih => obtain ⟨_, ha⟩ := ha; exact ih.advance ha

namespace Later

theorem grows (hl : Later env w w') (h : Lifecycle env w) : Grows w w' := by
  induction hl with
  | refl => exact .refl w
  | tail hl ha ih => obtain ⟨_, ha⟩ := ha; exact ih.trans ((h.later hl).grows ha)

/-- **A version identifies one value**: a later state with the same version, or
an earlier one, is the same state. -/
theorem eq_or_version_lt (hl : Later env w w') : w = w' ∨ w.stateVersion < w'.stateVersion :=
  hl.eq_or_lt _ Advance.version_lt

theorem rank_le (hl : Later env w w') : w.status.rank ≤ w'.status.rank := by
  rcases hl.eq_or_lt (·.status.rank) Advance.rank_lt with rfl | h
  · exact Nat.le_refl _
  · exact Nat.le_of_lt h

theorem eq_of_version (hl : Later env w w') (h : w'.stateVersion = w.stateVersion) : w' = w := by
  rcases hl.eq_or_version_lt with rfl | hlt
  · rfl
  · omega

/-- An executing workflow goes on executing, or completes. -/
theorem of_executing (hl : Later env w w') (h : w.status = .executing) :
    w'.status = .executing ∨ w'.status = .completed := by
  have hs : ∀ p ∈ statusSteps, p.1 = .executing → p.2 = .completed := by decide
  induction hl with
  | refl => exact .inl h
  | tail _ ha ih =>
    obtain ⟨_, ha⟩ := ha
    rcases ih with ih | ih
    · exact .inr (hs _ ha.status_step ih)
    · exact absurd (.inr (.inr ih)) ha.not_final

/-- A final state has no later one. -/
theorem eq_of_final (hl : Later env w w') (h : w.status.Final) : w' = w := by
  induction hl with
  | refl => rfl
  | tail _ ha ih =>
    obtain ⟨_, ha⟩ := ha
    subst ih
    exact absurd h ha.not_final

end Later

end AgenticDelivery.Api
