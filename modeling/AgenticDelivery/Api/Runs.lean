import AgenticDelivery.Api.History
import AgenticDelivery.Api.Verification

/-! # Runs of the service

What holds in every configuration of every run, ready for use, and a small
environment in which runs can be computed. -/
namespace AgenticDelivery.Api
open AgenticDelivery.Atomic AgenticDelivery.Data AgenticDelivery.Governance AgenticDelivery.Runtime

variable {env : Environment} {c c' : PoolConfig}

theorem initial_consistent (env : Environment) (now utc : Datetime) :
    Consistent env (initial now utc).state where
  stored h := by cases h
  bound h := by cases h
  queued h := by cases h
  order := List.nodup_nil
  mem_order k := by
    constructor
    · intro h
      cases h
    · rintro ⟨_, h⟩
      cases h
  retired h := by cases h
  recorded h := by cases h
  ticketed h := by cases h

theorem Reachable.trans (h : Reachable env c) (h' : (system env).Reaches c c') :
    Reachable env c' := by
  obtain ⟨now, utc, h⟩ := h
  exact ⟨now, utc, h.trans h'⟩

theorem reachable_play (env : Environment) (now utc : Datetime)
    (schedule : List (Move Call (Datetime × Datetime))) :
    Reachable env ((system env).play (initial now utc) schedule) :=
  ⟨now, utc, System.reaches_play _ _ _⟩

theorem safeAt_initial (env : Environment) (now utc : Datetime) :
    (system env).SafeAt (discipline env) (promises env) (initial now utc) :=
  .initial (initial_consistent env now utc)

/-- **Every run is safe.** -/
theorem Reachable.safeAt (hf : Function.Injective env.idFactory) (h : Reachable env c) :
    (system env).SafeAt (discipline env) (promises env) c := by
  obtain ⟨now, utc, h⟩ := h
  exact h.safe (disciplined hf) (safeAt_initial env now utc)

theorem Reachable.consistent (hf : Function.Injective env.idFactory) (h : Reachable env c) :
    Consistent env c.state := (h.safeAt hf).inv

theorem Reachable.evolve (hf : Function.Injective env.idFactory) (h : Reachable env c)
    (h' : (system env).Reaches c c') : Evolve env c.state c'.state :=
  h'.evolve (disciplined hf) (h.safeAt hf)

/-- Induction over the runs of the service. -/
theorem Reachable.induct (hf : Function.Injective env.idFactory) {P : PoolConfig → Prop}
    (h0 : ∀ now utc, P (initial now utc))
    (start : ∀ c call, Reachable env c → P c → P ((system env).start c call))
    (advance : ∀ c tid t op next, Reachable env c → P c → c.threads[tid]? = some t →
      t.rest = .call op next → P ((system env).advance c tid t op next))
    (tick : ∀ c t, Reachable env c → P c → P { c with state := (system env).tick t c.state })
    (h : Reachable env c) : P c := by
  obtain ⟨now, utc, h⟩ := h
  refine (h.induct (disciplined hf) (P := fun c => Reachable env c ∧ P c)
    (safeAt_initial env now utc) ⟨⟨now, utc, .refl⟩, h0 now utc⟩ ?_ ?_ ?_).2.2
  · exact fun c call _ ⟨hr, hp⟩ => ⟨hr.step (.spawn call), start c call hr hp⟩
  · intro c tid t op next _ ⟨hr, hp⟩ ht ho
    refine ⟨?_, advance c tid t op next hr hp ht ho⟩
    have := hr.step (.act tid)
    rwa [System.step_act ht ho] at this
  · exact fun c t _ ⟨hr, hp⟩ => ⟨hr.step (.tick t), tick c t hr hp⟩

/-- What a caller that is about to call `op` owes for it. -/
theorem Reachable.guar (hf : Function.Injective env.idFactory) (h : Reachable env c) {tid : Nat}
    {t : Caller} {op : Op} {next : Reply op → Service Workflow} (ht : c.threads[tid]? = some t)
    (hr : t.rest = .call op next) :
    Guar env t.call t.log op (exec env tid op c.state).1 c.state (exec env tid op c.state).2 :=
  ((h.safeAt hf).next ht hr).2.1

/-- What the next operation of a caller does to the repository: nothing, one step
of a stored workflow that the caller has seen, or a new workflow. -/
theorem Reachable.repository_step (hf : Function.Injective env.idFactory) (h : Reachable env c)
    {tid : Nat} {t : Caller} {op : Op} {next : Reply op → Service Workflow}
    (ht : c.threads[tid]? = some t) (hr : t.rest = .call op next) :
    ((exec env tid op c.state).2.repository = c.state.repository ∧
      writeOf ⟨op, (exec env tid op c.state).1⟩ = none) ∨
    (∃ w w', c.state.stored w'.workflowId = some w ∧ w ∈ reads t.log ++ writes t.log ∧
      Advance env t.call w w' ∧ writeOf ⟨op, (exec env tid op c.state).1⟩ = some w' ∧
      (exec env tid op c.state).2 = c.state.put w') ∨
    (∃ r id now, t.call = .create r ∧ r.Admitted env ∧ c.state.stored id = none ∧
      c.state.bound r.principal.subject r.idempotencyKey = none ∧
      writeOf ⟨op, (exec env tid op c.state).1⟩ = none ∧
      (exec env tid op c.state).2 =
        c.state.insert (r.received env id now) r.idempotencyKey) := by
  have hg := h.guar hf ht hr
  have hc := h.consistent hf
  cases op with
  | repositoryCreate w key =>
    obtain ⟨r, now, hcall, ha, rfl, hw, hn⟩ := hg
    have ho : w.ownerId = r.principal.subject := by rw [hw]; rfl
    rcases create_cases hc tid w r.idempotencyKey with
      ⟨hb, he⟩ | ⟨id, existing, hb, hst, ⟨-, he⟩ | ⟨-, he⟩⟩ <;> rw [he]
    · refine .inr (.inr ⟨r, w.workflowId, now, hcall, ha, hn, by rw [← ho]; exact hb, rfl, ?_⟩)
      rw [← hw]
    · exact .inl ⟨rfl, rfl⟩
    · exact .inl ⟨rfl, rfl⟩
  | repositoryUpdate w' v =>
    rcases update_cases env tid c.state w' v with ⟨he, -⟩ | ⟨w, hw, -, he⟩
    · rw [he]
      exact .inl ⟨rfl, rfl⟩
    · obtain ⟨-, w₁, hw₁, -, hread, ha⟩ := hg w' (by rw [he])
      rw [he]
      exact .inr (.inl ⟨w₁, w', hw₁, hread, ha, rfl, rfl⟩)
  | execute task proposal now =>
    refine .inl ⟨rfl, ?_⟩
    cases (exec env tid (.execute task proposal now) c.state).1 <;> rfl
  | _ => exact .inl ⟨rfl, rfl⟩

/-- What the next operation of a caller does to the executor: nothing, or a new
record, which a delivery files. -/
theorem Reachable.executor_step (hf : Function.Injective env.idFactory) (h : Reachable env c)
    {tid : Nat} {t : Caller} {op : Op} {next : Reply op → Service Workflow}
    (ht : c.threads[tid]? = some t) (hr : t.rest = .call op next) :
    (exec env tid op c.state).2.toolExecutor = c.state.toolExecutor ∨
    (∃ principal correlationId r, t.call = .processNextTask principal correlationId ∧
      principal.MayProcess ∧ ticketOf ⟨op, (exec env tid op c.state).1⟩ = some r ∧
      (exec env tid op c.state).2 = c.state.file r) := by
  have hg := h.guar hf ht hr
  cases op with
  | execute task proposal now =>
    obtain ⟨principal, correlationId, w₀, w, hcall, hmay, -, hw, -, -, hq, hp, hs, -⟩ := hg
    rcases execute_cases (h.consistent hf) hw hq hp hs tid now with ⟨_, -, -, he⟩ | ⟨-, -, he⟩ <;>
      rw [he]
    · exact .inl rfl
    · exact .inr ⟨principal, correlationId, _, hcall, hmay, rfl, rfl⟩
  | _ => exact .inl rfl

/-! ## A small environment -/

/-- `w`, `ww`, `www`, … -/
def sampleId (n : Nat) : String := String.ofList (List.replicate (n + 1) 'w')

theorem sampleId_injective : Function.Injective sampleId := by
  intro m n h
  have := congrArg (fun s => s.toList.length) h
  simpa [sampleId] using this

/-- A planning graph without knowledge, which plans everything in one step. -/
def sampleAgent : DeterministicAgentRuntime where
  provider planningInput classification _ := .ok
    { summary := planningInput.request
      complexity := classification.complexity
      deliverySteps := ["deliver"]
      risks := [] }
  retriever _ _ := .ok { corpusVersion := "v1", passages := [] }
  guardrails :=
    { policyVersion := "v1"
      checkInput := fun _ => .ok ()
      filterRetrieval := fun passages => .ok (passages, [])
      checkOutput := fun _ => .ok [] }
  evaluationGate _ _ _ _ := .ok
    { gateVersion := "v1", passed := true, score := 1, threshold := 1, checks := [] }
  lower := id

/-- Everything is general content, and everything is permitted. -/
def sampleEnv : Environment where
  runtime _ planningInput := sampleAgent.plan { planningInput, completedStates := [] } planningInput
  classifier _ declared :=
    { classification := .internal
      categories := if declared = none then [] else [.generalContent]
      detectionBasis := [] }
  policy context :=
    { decisionId := "decision"
      policyVersion := "v1"
      outcome := .permit
      executionAllowed := true
      enforcementMode := .enforce
      classification := context.dataProfile.classification
      obligations := []
      reasons := []
      retentionPolicy := "standard"
      overlayIds := context.overlayIds }
  idFactory := sampleId
  lower := id
  ticketSchema := .obj []

theorem sampleEnv_runsGraph : RunsGraph sampleEnv sampleAgent := fun _ _ => ⟨_, rfl⟩

/-- The request of the examples. -/
def sampleRequest : CreateRequest where
  principal := localRequester
  request := "Prepare a delivery plan"
  requestedLocale := "en"
  idempotencyKey := "key-1"
  correlationId := "c-1"

/-- Caller `tid` starts `call` and takes `steps` steps. -/
def moves (tid : Nat) (call : Call) (steps : Nat) : List (Move Call (Datetime × Datetime)) :=
  .spawn call :: List.replicate steps (.act tid)

/-- A request that is created, planned and approved; callers 0, 1 and 2. -/
def approvedRun : List (Move Call (Datetime × Datetime)) :=
  moves 0 (.create sampleRequest) 8 ++ moves 1 (.plan localRequester "w" "c-2") 8 ++
    moves 2 (.decideApproval localReviewer "w" .approved "reviewed" "key-2" "c-3") 6

/-- The same request, also executed; caller 3. -/
def completedRun : List (Move Call (Datetime × Datetime)) :=
  approvedRun ++ moves 3 (.processNextTask localOperator "c-4") 12

/-- Its workflow is completed and announced, nothing else is stored, and all callers have ended. -/
theorem completedRun_ends :
    (((system sampleEnv).play (initial 0 0) completedRun).state.stored "w").map
        (fun w => (w.status, w.approvalDecision.isSome)) = some (.completed, true) ∧
      (((system sampleEnv).play (initial 0 0) completedRun).state.audit.find? fun e =>
        e.outcome = "completed").isSome = true ∧
      ((system sampleEnv).play (initial 0 0)
        completedRun).state.repository.workflows.entries.map Prod.fst = ["w"] ∧
      (((system sampleEnv).play (initial 0 0) completedRun).threads.all fun t =>
        t.rest.outcome.isSome) = true := by
  decide +kernel

theorem completedRun_stored :
    ∃ w, ((system sampleEnv).play (initial 0 0) completedRun).state.stored "w" = some w ∧
      w.status = .completed ∧ w.approvalDecision.isSome = true := by
  obtain ⟨w, hw, h⟩ := Option.map_eq_some_iff.mp completedRun_ends.1
  exact ⟨w, hw, Prod.mk.inj h⟩

end AgenticDelivery.Api
