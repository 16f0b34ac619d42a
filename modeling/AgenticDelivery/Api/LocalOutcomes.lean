import AgenticDelivery.Api.Accounting
import AgenticDelivery.Api.ProhibitedData

/-! # What the default composition can raise

With the policy and the runtime that `create_app` wires up, no interleaving of calls
ends in anything but a workflow or an application error. -/
namespace AgenticDelivery.Api
open AgenticDelivery.Atomic AgenticDelivery.Data AgenticDelivery.Governance AgenticDelivery.Runtime

variable {u : Unicode} {mode : EnforcementMode} {env : Environment} {c : PoolConfig}

/-- The policy and the runtime of `create_app`, in some enforcement mode. -/
structure DefaultPorts (u : Unicode) (mode : EnforcementMode) (env : Environment) : Prop where
  policy : env.policy = BaselinePolicyEngine.evaluate mode
  runtime : RunsGraph env (defaultRuntime u {})

/-! ## The policy after the intake -/

/-- An operation of the local provider, other than the intake, is never denied. -/
theorem executionAllowed_local {context : ProcessingContext} (mode : EnforcementMode)
    (ho : context.operation ≠ .workflowIntake) (hp : context.provider ∈ localProviders) :
    (BaselinePolicyEngine.evaluate mode context).executionAllowed = true := by
  have hprohibited : BaselinePolicyEngine.prohibited context = false :=
    decide_eq_false fun h => ho h.1
  have hunapproved : BaselinePolicyEngine.unapproved context = false :=
    decide_eq_false fun h => h.2 hp
  simp only [BaselinePolicyEngine.evaluate, hprohibited, hunapproved, Bool.or_self, Bool.not_false,
    Bool.true_or]

/-- What has passed the intake may be planned. -/
theorem DefaultPorts.planning_allowed (h : DefaultPorts u mode env) (context : ProcessingContext) :
    (env.policy (planningContext context)).executionAllowed = true := by
  rw [h.policy]
  refine executionAllowed_local mode (by simp [planningContext]) ?_
  exact (by decide : "deterministic-local" ∈ localProviders)

/-- What has been approved may be executed. -/
theorem DefaultPorts.execution_allowed (h : DefaultPorts u mode env) (context : ProcessingContext) :
    (env.policy (executionContext context)).executionAllowed = true := by
  rw [h.policy]
  refine executionAllowed_local mode (by simp [executionContext]) ?_
  exact (by decide : "deterministic-local" ∈ localProviders)

/-! ## The runtime -/

/-- The default runtime plans a safe request. -/
theorem plan_of_safe (thread : RuntimeState) {planningInput : PlanningInput}
    (hreq : Safe u planningInput.request) :
    ∃ result, (defaultRuntime u {}).plan thread planningInput = .ok result :=
  ⟨_, (plan_localCorpus thread).trans (if_pos hreq)⟩

/-- The default runtime blocks a request or plans it. -/
theorem DefaultPorts.runtime_cases (h : DefaultPorts u mode env) (n : Nat)
    (planningInput : PlanningInput) :
    (¬Safe u planningInput.request ∧ env.runtime n planningInput =
      .error (.promptInjectionBlocked
        "The request contains an instruction-override pattern and was blocked.")) ∨
    (Safe u planningInput.request ∧ ∃ result, env.runtime n planningInput = .ok result) := by
  obtain ⟨thread, hrun⟩ := h.runtime n planningInput
  by_cases hreq : Safe u planningInput.request
  · obtain ⟨result, hplan⟩ := plan_of_safe thread hreq
    exact .inr ⟨hreq, result, hrun.trans hplan⟩
  · exact .inl ⟨hreq, hrun.trans (plan_blocked {} thread hreq)⟩

/-- What is planned is an answer of the runtime to the request. -/
theorem Lifecycle.answered {w : Workflow} (h : Lifecycle env w) {result : PlanningResult}
    (hr : w.planningResult = some result) :
    ∃ n planningInput, planningInput.request = w.request ∧
      env.runtime n planningInput = .ok result := by
  induction h with
  | receive => cases hr
  | advance _ ha ih =>
    cases ha with
    | plan _ _ _ _ answer =>
      cases hr
      exact ⟨_, _, rfl, answer⟩
    | expireProposal | decide | expireApproval | beginExecution => exact ih hr
    | completeExecution _ _ _ _ _ completed =>
      obtain ⟨_, -, rfl⟩ := completeExecution_ok completed
      exact ih hr

/-- A guard is recorded when the runtime has refused the request of the workflow. -/
theorem Borne.guarded {known : Workflow → Prop} {absent : String → Prop} {call : Call}
    {action outcome : String} {resourceId : Option String}
    (h : Borne env known absent call action outcome resourceId) :
    (action = "guardrail.input" → ∃ w n planningInput message, known w ∧
      resourceId = some w.workflowId ∧ planningInput.request = w.request ∧
      env.runtime n planningInput = .error (.promptInjectionBlocked message)) ∧
    (action = "evaluation.planning_gate" → ∃ n planningInput result,
      env.runtime n planningInput = .error (.evaluationGateBlocked result)) := by
  constructor
  · intro ha
    cases h with
    | injection stored _ answer => exact ⟨_, _, _, _, stored, rfl, rfl, answer⟩
    | _ => exact absurd ha (by decide)
  · intro ha
    cases h with
    | gate _ _ answer => exact ⟨_, _, _, answer⟩
    | _ => exact absurd ha (by decide)

/-! ## The errors of a run -/

theorem DefaultPorts.not_internal (h : DefaultPorts u mode env) (e : Failure) :
    ¬Internal env e := by
  rintro (⟨context, -, hr, -⟩ | ⟨n, planningInput, message, ha, -⟩)
  · rw [h.policy] at hr
    exact BaselinePolicyEngine.reasons_ne_nil mode context hr
  · rcases h.runtime_cases n planningInput with ⟨-, hb⟩ | ⟨-, result, hb⟩ <;>
      rw [hb] at ha <;> cases ha

theorem Reachable.raised (hf : Function.Injective env.idFactory) (hp : DefaultPorts u mode env)
    (hc : Reachable env c) {t : Caller} (ht : t ∈ c.threads) {e : Failure}
    (he : t.rest.outcome = some (.error e)) : e.Application := by
  obtain ⟨tid, ht⟩ := List.getElem?_of_mem ht
  have hends := System.ends_of_keeps (hc.accounts hf ht).2 he
  exact hends.2.resolve_right (hp.not_internal e)

/-- **No call fails internally.** In the default composition, whatever the calls and
however they interleave, a call that ends has returned a workflow or raised an
application error: no missing key, no value error, no index error, no exception of the
runtime. -/
theorem application_errors_only (hf : Function.Injective env.idFactory)
    (hp : DefaultPorts u mode env) (hc : Reachable env c) :
    ∀ t ∈ c.threads, ∀ e, t.rest.outcome = some (.error e) →
      ∃ kind detail, e = .application kind detail := by
  intro t ht e he
  have happ := hc.raised hf hp ht he
  cases e with
  | application kind detail => exact ⟨kind, detail, rfl⟩
  | valueError | keyError | indexError | runtime => exact happ.elim

theorem localEnv_ports : DefaultPorts asciiUnicode .enforce localEnv := ⟨rfl, fun _ _ => ⟨_, rfl⟩⟩

/-- A read of a workflow that is not there raises an application error. -/
theorem application_errors_only_localEnv : ∃ t e kind detail,
    t ∈ ((system localEnv).play (initial 0 0) (moves 0 (.get localRequester "w" "c-1") 2)).threads ∧
      t.rest.outcome = some (.error e) ∧ e = .application kind detail := by
  have h : (((system localEnv).play (initial 0 0)
      (moves 0 (.get localRequester "w" "c-1") 2)).threads.find? fun t =>
        t.rest.outcome.any fun o => o.toOption.isNone).isSome = true := by decide
  obtain ⟨t, ht⟩ := Option.isSome_iff_exists.mp h
  have hm := List.mem_of_find?_eq_some ht
  have ho := List.find?_some ht
  cases hout : t.rest.outcome with
  | none => rw [hout] at ho; cases ho
  | some o =>
    cases o with
    | ok w => rw [hout] at ho; cases ho
    | error e =>
      obtain ⟨kind, detail, he⟩ := application_errors_only sampleId_injective localEnv_ports
        (reachable_play localEnv 0 0 _) t hm e hout
      exact ⟨t, e, kind, detail, hm, hout, he⟩

end AgenticDelivery.Api
