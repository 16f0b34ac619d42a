import AgenticDelivery.Api.Runs

/-! # Stored workflows over a run

What the repository holds under one id, in every configuration of every run:
its history, its evidence, and how it changes. -/
namespace AgenticDelivery.Api
open AgenticDelivery.Atomic AgenticDelivery.Data AgenticDelivery.Governance AgenticDelivery.Runtime

variable {env : Environment} {c c' : PoolConfig}

/-! ## History -/

/-- **The history of a stored workflow is a path of the documented machine**,
and a final state stays. -/
theorem stored_history {agent : DeterministicAgentRuntime} (hf : Function.Injective env.idFactory)
    (hg : RunsGraph env agent) (hc : Reachable env c) {id : String} {w : Workflow}
    (hw : c.state.stored id = some w) :
    History w ∧ (w.status.Final → ∀ c', (system env).Reaches c c' →
      c'.state.stored id = some w) := by
  have hl : Lifecycle env w := ((hc.consistent hf).stored hw).2.1
  refine ⟨hl.history hg, fun hfinal c' hr => ?_⟩
  obtain ⟨w', hw', hl'⟩ := (hc.evolve hf hr).stored hw
  rw [hl'.eq_of_final hfinal] at hw'
  exact hw'

theorem stored_history_completedRun :
    ∃ w, ((system sampleEnv).play (initial 0 0) completedRun).state.stored "w" = some w ∧
      w.status = .completed ∧ History w := by
  obtain ⟨w, hw, hs, -⟩ := completedRun_stored
  exact ⟨w, hw, hs, (stored_history sampleId_injective sampleEnv_runsGraph
    (reachable_play sampleEnv 0 0 completedRun) hw).1⟩

/-! ## Evidence -/

/-- The four copies of the digest of `w`: in its proposal, where it is the hash of
the planned arguments, in its approval, in its ticket and in its queued task. -/
def DigestBound (s : State) (w : Workflow) : Prop :=
  ∀ proposal, w.actionProposal = some proposal →
    (∃ result, w.planningResult = some result ∧
      proposal.arguments = ticketArguments w.workflowId result ∧
      proposal.proposalDigest = canonicalDigest (actionContract proposal.arguments)) ∧
    (∀ approval, w.approvalDecision = some approval →
      approval.proposalDigest = proposal.proposalDigest ∧
      approval.expiresAt ≤ proposal.expiresAt) ∧
    (∀ result, w.executionResult = some result →
      result.proposalDigest = proposal.proposalDigest) ∧
    (∀ key task, s.taskQueue.tasks.get? key = some task → task.workflowId = w.workflowId →
      task.proposalDigest = proposal.proposalDigest)

/-- **Status determines the evidence, and the evidence is bound end to end.** -/
theorem stored_evidence (hf : Function.Injective env.idFactory) (hc : Reachable env c)
    {id : String} {w : Workflow} (hw : c.state.stored id = some w) :
    Evidence env w ∧ Governed env w ∧ DigestBound c.state w := by
  have h := hc.consistent hf
  obtain ⟨hid, hl, -⟩ := h.stored hw
  refine ⟨hl.evidence, hl.governed, fun proposal hp => ⟨?_, ?_, ?_, ?_⟩⟩
  · obtain ⟨result, now, hr, hp'⟩ := hl.planned hp
    rw [hp] at hp'
    cases hp'
    exact ⟨result, hr, rfl, rfl⟩
  · intro approval ha
    obtain ⟨d, consumed, proposal', reviewer, reason, key, now, hp', -, -, ha'⟩ := hl.decided ha
    rw [hp] at hp'
    cases hp'
    rw [ha] at ha'
    cases ha'
    exact ⟨rfl, min_le_left _ _⟩
  · intro result hr
    have hs : w.status = .completed := by
      by_contra hs
      rw [hl.no_ticket hs] at hr
      cases hr
    have he := hl.evidence
    rw [Evidence, hs] at he
    obtain ⟨-, -, proposal', result', hp', hr', hd, -⟩ := he
    rw [hp] at hp'
    rw [hr] at hr'
    cases hp'
    cases hr'
    exact hd
  · intro key task ht hwid
    obtain ⟨-, w', hw', htask⟩ := h.queued ht
    rw [hwid, hid, hw] at hw'
    cases hw'
    exact htask.proposalDigest hp

theorem stored_evidence_completedRun :
    ∃ w, ((system sampleEnv).play (initial 0 0) completedRun).state.stored "w" = some w ∧
      w.status = .completed ∧ Evidence sampleEnv w ∧ Governed sampleEnv w := by
  obtain ⟨w, hw, hs, -⟩ := completedRun_stored
  obtain ⟨he, hg, -⟩ := stored_evidence sampleId_injective
    (reachable_play sampleEnv 0 0 completedRun) hw
  exact ⟨w, hw, hs, he, hg⟩

/-! ## Updates -/

/-- A stored value that carries a fresh decision on workflow `id`. -/
def DecisionOn (id : String) (w : Workflow) : Prop :=
  w.workflowId = id ∧ (w.status = .approved ∨ w.status = .rejected)

instance (id : String) (w : Workflow) : Decidable (DecisionOn id w) :=
  inferInstanceAs (Decidable (_ ∧ _))

/-- The update of a run that stores a decision on workflow `id`. -/
def storesDecision (id : String) (e : CallEvent) : Bool := (writeOf e).any (DecisionOn id ·)

/-- How many updates of a run have stored a decision on workflow `id`. -/
def decisionsStored (c : PoolConfig) (id : String) : Nat := c.events.countP (storesDecision id)

/-- Whether the stored workflow is decided, as a number. -/
def decided (s : State) (id : String) : Nat :=
  match s.stored id with
  | some w => if w.approvalDecision = none then 0 else 1
  | none => 0

/-- A step that stores a decision is the first decision. -/
theorem Advance.decisionOn {call : Call} {w w' : Workflow} (ha : Advance env call w w') :
    (DecisionOn w'.workflowId w' → w.approvalDecision = none ∧ w'.approvalDecision ≠ none) ∧
    (¬DecisionOn w'.workflowId w' →
      (w.approvalDecision = none ↔ w'.approvalDecision = none)) := by
  cases ha with
  | plan => exact ⟨fun h => (by rcases h.2 with h | h <;> cases h), fun _ => Iff.rfl⟩
  | expireProposal => exact ⟨fun h => (by rcases h.2 with h | h <;> cases h), fun _ => Iff.rfl⟩
  | expireApproval => exact ⟨fun h => (by rcases h.2 with h | h <;> cases h), fun _ => Iff.rfl⟩
  | beginExecution => exact ⟨fun h => (by rcases h.2 with h | h <;> cases h), fun _ => Iff.rfl⟩
  | @decide _ d _ _ _ _ _ _ _ _ undecided =>
    refine ⟨fun _ => ⟨undecided, nofun⟩, fun h => absurd ⟨rfl, ?_⟩ h⟩
    cases d
    · exact .inl rfl
    · exact .inr rfl
  | completeExecution _ _ _ _ _ completed =>
    obtain ⟨_, hv, rfl⟩ := completeExecution_ok completed
    refine ⟨fun h => (by rcases h.2 with h | h <;> cases h), fun _ => ?_⟩
    rw [hv]
    exact ⟨nofun, nofun⟩

theorem decided_put {s : State} {w w' : Workflow} (hw : s.stored w'.workflowId = some w)
    {call : Call} (ha : Advance env call w w') (id : String) :
    decided (s.put w') id = decided s id + if DecisionOn id w' then 1 else 0 := by
  simp only [decided, put_stored]
  by_cases hid : id = w'.workflowId
  · subst hid
    obtain ⟨hyes, hno⟩ := ha.decisionOn
    rw [if_pos rfl, hw]
    by_cases hd : DecisionOn w'.workflowId w'
    · simp [hd, hyes hd]
    · simp [hd, hno hd]
  · have hd : ¬DecisionOn id w' := fun h => hid h.1.symm
    rw [if_neg hid, if_neg hd, Nat.add_zero]

theorem decided_insert {s : State} {w : Workflow} (hn : s.stored w.workflowId = none)
    (ha : w.approvalDecision = none) (key id : String) :
    decided (s.insert w key) id = decided s id := by
  simp only [decided, insert_stored]
  by_cases hid : id = w.workflowId
  · subst hid
    rw [if_pos rfl, hn]
    exact if_pos ha
  · rw [if_neg hid]

/-- **Exactly one update stores a decision** on a workflow that is decided, and
none on one that is not. -/
theorem decisionsStored_eq (hf : Function.Injective env.idFactory) (hc : Reachable env c)
    (id : String) : decisionsStored c id = decided c.state id := by
  refine hc.induct hf (P := fun c => decisionsStored c id = decided c.state id) ?_ ?_ ?_ ?_
  · exact fun _ _ => rfl
  · intro c call _ ih
    rw [decisionsStored, System.start_events]
    exact ih
  · intro c tid t op next hr ih ht ho
    rw [decisionsStored, System.countP_events_advance _ _ ht, storesDecision]
    change decisionsStored c id + _ = decided (exec env tid op c.state).2 id
    rw [ih]
    rcases hr.repository_step hf ht ho with ⟨hrep, hwr⟩ | ⟨w, w', hw, -, ha, hwr, hst⟩ |
      ⟨r, id', now, -, -, hn, -, hwr, hst⟩
    · have he : (writeOf ⟨op, ((system env).exec tid op c.state).1⟩) = none := hwr
      rw [he]
      simp only [decided, State.stored, hrep, Option.any_none]
      rfl
    · have he : (writeOf ⟨op, ((system env).exec tid op c.state).1⟩) = some w' := hwr
      rw [he, hst, decided_put hw ha]
      simp
    · have he : (writeOf ⟨op, ((system env).exec tid op c.state).1⟩) = none := hwr
      rw [he, hst, decided_insert hn rfl]
      rfl
  · exact fun c t _ ih => ih

/-- A successful update replaces the very value it was computed from. -/
theorem update_current (hf : Function.Injective env.idFactory) (hc : Reachable env c) {tid v : Nat}
    {t : Caller} {w' w'' : Workflow} {next : Except Failure Workflow → Service Workflow}
    (ht : c.threads[tid]? = some t) (ho : t.rest = .call (.repositoryUpdate w' v) next)
    (hok : (exec env tid (.repositoryUpdate w' v) c.state).1 = .ok w'') :
    ∃ w, c.state.stored w'.workflowId = some w ∧ w ∈ reads t.log ++ writes t.log ∧
      w.stateVersion = v ∧ v < w'.stateVersion ∧ Advance env t.call w w' ∧
      (exec env tid (.repositoryUpdate w' v) c.state).2 = c.state.put w' := by
  obtain ⟨-, w, hw, hv, hread, ha⟩ := hc.guar hf ht ho w'' hok
  rcases update_cases env tid c.state w' v with ⟨he, -⟩ | ⟨_, -, -, he⟩
  · rw [he] at hok
    cases hok
  · exact ⟨w, hw, hread, hv, hv ▸ ha.version_lt, ha, by rw [he]⟩

/-- What is stored under an id only grows, and has a new version when it changes. -/
theorem stored_grows (hf : Function.Injective env.idFactory) (hc : Reachable env c) {id : String}
    {w : Workflow} (hw : c.state.stored id = some w) (hr : (system env).Reaches c c') :
    ∃ w', c'.state.stored id = some w' ∧ Grows w w' ∧
      (w' = w ∨ w.stateVersion < w'.stateVersion) := by
  obtain ⟨w', hw', hl⟩ := (hc.evolve hf hr).stored hw
  exact ⟨w', hw', hl.grows ((hc.consistent hf).stored hw).2.1, hl.eq_or_version_lt.imp_left Eq.symm⟩

/-- A `decide_approval` that returned: the decision that is stored has its key. -/
theorem decideApproval_returned (hf : Function.Injective env.idFactory) (hc : Reachable env c)
    {tid : Nat} {t : Caller} {principal : Principal} {id reason key correlationId : String}
    {decision : Decision} {w : Workflow} (ht : c.threads[tid]? = some t)
    (hcall : t.call = .decideApproval principal id decision reason key correlationId)
    (hdone : t.rest.outcome = some (.ok w)) : ∃ w' approval, c.state.stored id = some w' ∧
      w'.approvalDecision = some approval ∧ approval.decision = decision ∧
      approval.idempotencyKey = key := by
  have hp := (hc.safeAt hf).post ht hdone
  rw [hcall] at hp
  obtain ⟨w₀, approval, -, -, rfl, ⟨hlife, w', hw', hl⟩, ha, hd, hk, -⟩ := hp
  obtain ⟨_, -, ha'⟩ := (hl.grows hlife).approvalDecision approval ha
  exact ⟨w', _, hw', ha', hd, hk⟩

/-- A `decide_approval` that has ended, by someone who might decide: the workflow
that was pending is decided or expired. -/
theorem decideApproval_settled (hf : Function.Injective env.idFactory) (hc : Reachable env c)
    {tid : Nat} {t : Caller} {principal : Principal} {id reason key correlationId : String}
    {decision : Decision} {o : Except Failure Workflow} {w₀ : Workflow}
    (ht : c.threads[tid]? = some t)
    (hcall : t.call = .decideApproval principal id decision reason key correlationId)
    (ho : t.rest.outcome = some o) (hw₀ : t.born.stored id = some w₀)
    (hs : w₀.status = .awaitingApproval) (hm : principal.MayDecide w₀) :
    ∃ w, c.state.stored id = some w ∧ (w.approvalDecision ≠ none ∨ w.status = .expired) := by
  have hp := (hc.safeAt hf).post ht ho
  rw [hcall] at hp
  cases o with
  | error e =>
    obtain ⟨w, hw, hrank⟩ := hp w₀ hw₀ hm hs
    exact ⟨w, hw, ((hc.consistent hf).stored hw).2.1.settled hrank⟩
  | ok w =>
    obtain ⟨_, approval, -, -, rfl, ⟨hlife, w', hw', hl⟩, ha, -⟩ := hp
    obtain ⟨_, -, ha'⟩ := (hl.grows hlife).approvalDecision approval ha
    exact ⟨w', hw', .inl (by rw [ha']; nofun)⟩

/-- **No update is lost.** Every update replaces the value it was computed from;
what is stored only grows; and of all decisions on a workflow exactly one is
stored, the one every call that returned has asked for. -/
theorem no_lost_update (hf : Function.Injective env.idFactory) (hc : Reachable env c) :
    (∀ (tid : Nat) (t : Caller) w' v next w'', c.threads[tid]? = some t →
      t.rest = .call (.repositoryUpdate w' v) next →
      (exec env tid (.repositoryUpdate w' v) c.state).1 = .ok w'' →
      ∃ w, c.state.stored w'.workflowId = some w ∧ w ∈ reads t.log ++ writes t.log ∧
        w.stateVersion = v ∧ v < w'.stateVersion ∧ Advance env t.call w w' ∧
        (exec env tid (.repositoryUpdate w' v) c.state).2 = c.state.put w') ∧
    (∀ id w, c.state.stored id = some w → ∀ c', (system env).Reaches c c' →
      ∃ w', c'.state.stored id = some w' ∧ Grows w w' ∧
        (w' = w ∨ w.stateVersion < w'.stateVersion)) ∧
    (∀ id, decisionsStored c id = decided c.state id) ∧
    (∀ (tid : Nat) (t : Caller) principal id decision reason key correlationId,
      c.threads[tid]? = some t →
      t.call = .decideApproval principal id decision reason key correlationId →
      (∀ w, t.rest.outcome = some (.ok w) → ∃ w' approval, c.state.stored id = some w' ∧
        w'.approvalDecision = some approval ∧ approval.decision = decision ∧
        approval.idempotencyKey = key) ∧
      (∀ o (w₀ : Workflow), t.rest.outcome = some o → t.born.stored id = some w₀ →
        w₀.status = .awaitingApproval → principal.MayDecide w₀ →
        ∃ w, c.state.stored id = some w ∧ (w.approvalDecision ≠ none ∨ w.status = .expired))) := by
  refine ⟨?_, ?_, decisionsStored_eq hf hc, ?_⟩
  · exact fun _ _ _ _ _ _ ht ho hok => update_current hf hc ht ho hok
  · exact fun _ _ hw _ hr => stored_grows hf hc hw hr
  · intro tid t principal id decision reason key correlationId ht hcall
    exact ⟨fun w hdone => decideApproval_returned hf hc ht hcall hdone,
      fun o w₀ ho hw₀ hs hm => decideApproval_settled hf hc ht hcall ho hw₀ hs hm⟩

/-- The approved request of the examples: one decision is stored. -/
theorem no_lost_update_approvedRun :
    decisionsStored ((system sampleEnv).play (initial 0 0) approvedRun) "w" = 1 := by
  rw [(no_lost_update sampleId_injective (reachable_play sampleEnv 0 0 approvedRun)).2.2.1 "w"]
  decide

end AgenticDelivery.Api
