import Mathlib.Data.List.Chain
import AgenticDelivery.Api.Evidence
import AgenticDelivery.Runtime.Graph

/-! # The recorded history

Under the planning graph, the transitions a workflow records are a path of the
documented state machine, from `received` to its status. -/
namespace AgenticDelivery.Api
open AgenticDelivery.Runtime

/-- The transitions of the state model that the service takes. -/
def validTransitions : List (WorkflowState × WorkflowState) :=
  [(.received, .validated), (.validated, .guarded), (.guarded, .classified),
    (.classified, .contextBuilt), (.contextBuilt, .knowledgeRetrieved),
    (.knowledgeRetrieved, .planned), (.planned, .evaluated), (.evaluated, .awaitingApproval),
    (.awaitingApproval, .approved), (.awaitingApproval, .rejected), (.awaitingApproval, .expired),
    (.approved, .executing), (.approved, .expired), (.executing, .evaluating),
    (.evaluating, .completed)]

/-- The statuses `WorkflowResponse` accepts. -/
def responseStatuses : List WorkflowState :=
  [.received, .awaitingApproval, .approved, .rejected, .expired, .executing, .completed]

def Follows (t t' : StateTransition) : Prop :=
  t'.previous = some t.current ∧ (t.current, t'.current) ∈ validTransitions

/-- A recorded path from the creation of a workflow to `status`. -/
structure Traced (transitions : List StateTransition) (status : WorkflowState) : Prop where
  first : transitions.head?.map (fun t => (t.previous, t.current)) = some (none, .received)
  path : transitions.IsChain Follows
  last : transitions.getLast?.map (·.current) = some status

/-- The history of a workflow is a path to its status, one version a transition. -/
structure History (w : Workflow) : Prop where
  version : w.stateVersion = w.transitions.length
  traced : Traced w.transitions w.status
  accepted : w.status ∈ responseStatuses

variable {env : Environment} {w : Workflow}

/-- A path goes on along a valid transition. -/
theorem Traced.snoc {ts : List StateTransition} {s s' : WorkflowState} (h : Traced ts s)
    (he : (s, s') ∈ validTransitions) (now : Datetime) (actor : ActorType) :
    Traced (ts ++ [⟨some s, s', now, actor⟩]) s' := by
  obtain ⟨hf, hp, hl⟩ := h
  cases hts : ts.getLast? with
  | none => rw [hts] at hl; cases hl
  | some t =>
    rw [hts] at hl
    have ht : t.current = s := Option.some.inj hl
    refine ⟨?_, ?_, ?_⟩
    · rw [List.head?_append]
      cases hh : ts.head? with
      | none => rw [hh] at hf; cases hf
      | some t' => rw [hh] at hf; exact hf
    · refine hp.append (List.isChain_singleton _) fun x hx y hy => ?_
      rw [hts] at hx
      cases hx
      cases hy
      exact ⟨congrArg some ht.symm, ht ▸ he⟩
    · simp

theorem Traced.snoc₂ {ts : List StateTransition} {s s' s'' : WorkflowState} (h : Traced ts s)
    (he : (s, s') ∈ validTransitions) (he' : (s', s'') ∈ validTransitions) (now : Datetime)
    (actor : ActorType) :
    Traced (ts ++ [⟨some s, s', now, actor⟩, ⟨some s', s'', now, actor⟩]) s'' := by
  have := (h.snoc he now actor).snoc he' now actor
  rwa [List.append_assoc] at this

/-- The checkpoints of a planning result continue a path when its steps do. -/
theorem Traced.checkpoints (now : Datetime) :
    ∀ (steps : List CompletedState) {ts : List StateTransition} {s : WorkflowState}, Traced ts s →
      (s :: (steps.map stateOfStep ++ [WorkflowState.awaitingApproval])).IsChain
        (fun a b => (a, b) ∈ validTransitions) →
      Traced (ts ++ Workflow.checkpoints now s steps) .awaitingApproval
  | [], _, _, h, hc => h.snoc (List.isChain_cons_cons.mp hc).1 now .system
  | step :: steps, ts, s, h, hc => by
    obtain ⟨he, hr⟩ := List.isChain_cons_cons.mp hc
    have := Traced.checkpoints now steps (h.snoc he now .system) hr
    rwa [List.append_assoc] at this

theorem checkpoints_length (now : Datetime) : ∀ (steps : List CompletedState) (s : WorkflowState),
    (Workflow.checkpoints now s steps).length = steps.length + 1
  | [], _ => rfl
  | _ :: steps, _ => congrArg (· + 1) (checkpoints_length now steps _)

theorem Lifecycle.status_mem (h : Lifecycle env w) : w.status ∈ responseStatuses := by
  have he := h.evidence
  cases hs : w.status <;> first | decide | (rw [Evidence, hs] at he; exact he.elim)

/-- The runtime of `env` is the planning graph of `agent`, called on threads
with any checkpoints. -/
def RunsGraph (env : Environment) (agent : DeterministicAgentRuntime) : Prop :=
  ∀ n planningInput, ∃ thread, env.runtime n planningInput = agent.plan thread planningInput

/-- **Every history is a path of the documented machine.** -/
theorem Lifecycle.history {agent : DeterministicAgentRuntime} (hr : RunsGraph env agent)
    (h : Lifecycle env w) : History w := by
  refine ⟨?_, ?_, h.status_mem⟩
  · induction h with
    | receive => rfl
    | advance _ ha ih =>
      cases ha with
      | plan =>
        simp only [Workflow.applyPlanningResult, List.length_append, checkpoints_length]
        omega
      | completeExecution _ _ _ _ _ completed =>
        obtain ⟨_, -, rfl⟩ := completeExecution_ok completed
        simp only [List.length_append, List.length_cons, List.length_nil]
        omega
      | _ =>
        simp only [Workflow.expire, Workflow.recordApproval, Workflow.beginExecution,
          List.length_append, List.length_singleton]
        omega
  · induction h with
    | receive => exact ⟨rfl, List.isChain_singleton _, rfl⟩
    | @advance _ w _ _ ha ih =>
      cases ha with
      | @plan _ correlationId _ n result _ now _ status _ _ answer =>
        obtain ⟨thread, hg⟩ := hr n (WorkflowService.planningInput w correlationId)
        rw [answer] at hg
        have hc := agent.plan_completedStates hg.symm
        refine ih.checkpoints now _ ?_
        rw [status, hc]
        decide
      | expireProposal _ status =>
        exact ih.snoc (by rw [status]; decide) _ _
      | @decide _ d _ _ _ _ _ _ _ status =>
        have hv : (.awaitingApproval, stateOfDecision d) ∈ validTransitions := by
          cases d <;> decide
        exact ih.snoc (by rw [status]; exact hv) _ _
      | expireApproval _ status =>
        exact ih.snoc (by rw [status]; decide) _ _
      | beginExecution _ status =>
        exact ih.snoc (by rw [status]; decide) _ _
      | completeExecution _ status _ _ _ completed =>
        obtain ⟨_, -, rfl⟩ := completeExecution_ok completed
        exact ih.snoc₂ (by rw [status]; decide) (by decide) _ _

end AgenticDelivery.Api
