import AgenticDelivery.Api.Runs

/-! # Decisions

What a `decide_approval` call that returned says about its caller. -/
namespace AgenticDelivery.Api
open AgenticDelivery.Atomic AgenticDelivery.Data AgenticDelivery.Governance AgenticDelivery.Runtime

variable {env : Environment} {c : PoolConfig}

/-- The workflow records a decision with this reviewer, decision and reason. -/
def RecordsDecision (w : Workflow) (principal : Principal) (decision : Decision)
    (reason : String) : Prop :=
  ∃ approval, w.approvalDecision = some approval ∧ approval.reviewerId = principal.subject ∧
    approval.decision = decision ∧ approval.reason = reason

/-- **A returned decision is the caller's own exactly when the call read no decision,
or one of the same reviewer for the same reason.** The replay branch compares
the key and the decision, and neither the reviewer nor the reason. -/
theorem recordsDecision_iff (hf : Function.Injective env.idFactory) (hc : Reachable env c)
    {tid : Nat} {t : Caller} {principal : Principal} {id reason key correlationId : String}
    {decision : Decision} {w : Workflow} (ht : c.threads[tid]? = some t)
    (hcall : t.call = .decideApproval principal id decision reason key correlationId)
    (hok : t.rest.outcome = some (.ok w)) :
    RecordsDecision w principal decision reason ↔
      ∀ w₀ ∈ reads t.log, ∀ a, w₀.approvalDecision = some a →
        a.reviewerId = principal.subject ∧ a.reason = reason := by
  have hp := (hc.safeAt hf).post ht hok
  rw [hcall] at hp
  obtain ⟨w₀, approval, hread, -, -, -, ha, hd, -, hown, hsame, -⟩ := hp
  rw [hread]
  constructor
  · rintro ⟨a, hwa, hrev, -, hreason⟩ w₁ hw₁ a₁ ha₁
    rw [List.mem_singleton.mp hw₁] at ha₁
    rcases hsame with hn | rfl
    · rw [hn] at ha₁
      cases ha₁
    · rw [hwa] at ha₁
      cases ha₁
      exact ⟨hrev, hreason⟩
  · intro h
    refine ⟨approval, ha, ?_⟩
    rcases hsame with hn | rfl
    · obtain ⟨hrev, hreason⟩ := hown hn
      exact ⟨hrev, hd, hreason⟩
    · obtain ⟨hrev, hreason⟩ := h w (List.mem_singleton.mpr rfl) approval ha
      exact ⟨hrev, hd, hreason⟩

/-- The first decision of the examples is the reviewer's own. -/
theorem recordsDecision_approvedRun :
    ∃ t w, ((system sampleEnv).play (initial 0 0) approvedRun).threads[2]? = some t ∧
      t.rest.outcome = some (.ok w) ∧ RecordsDecision w localReviewer .approved "reviewed" := by
  have h : (((system sampleEnv).play (initial 0 0) approvedRun).threads[2]?.bind fun t =>
      t.rest.returned.map fun _ =>
        decide (t.call = .decideApproval localReviewer "w" .approved "reviewed" "key-2" "c-3" ∧
          (reads t.log).map (·.approvalDecision) = [none])) = some true := by decide
  obtain ⟨t, ht, h⟩ := Option.bind_eq_some_iff.mp h
  obtain ⟨w, hw, h⟩ := Option.map_eq_some_iff.mp h
  obtain ⟨hcall, hnone⟩ := of_decide_eq_true h
  have hok := Program.outcome_of_returned hw
  refine ⟨t, w, ht, hok, (recordsDecision_iff sampleId_injective
    (reachable_play sampleEnv 0 0 approvedRun) ht hcall hok).mpr fun w₀ hw₀ a ha => ?_⟩
  have hm := List.mem_map_of_mem (f := (·.approvalDecision)) hw₀
  rw [hnone, ha] at hm
  exact absurd (List.mem_singleton.mp hm) nofun

/-- After the reviewer's decision an administrator sends the same key, with a
reason of their own. -/
def replayedRun : List (Move Call (Datetime × Datetime)) :=
  approvedRun ++
    moves 3 (.decideApproval localAdministrator "w" .approved "checked by me" "key-2" "c-4") 4

/-- The administrator's call returns, with the reviewer's decision and reason. -/
theorem replayedRun_not_recordsDecision :
    ∃ t w a, ((system sampleEnv).play (initial 0 0) replayedRun).threads[3]? = some t ∧
      t.call = .decideApproval localAdministrator "w" .approved "checked by me" "key-2" "c-4" ∧
      t.rest.outcome = some (.ok w) ∧ w.approvalDecision = some a ∧
      a.reviewerId = "local-reviewer" ∧ a.reason = "reviewed" ∧
      ¬RecordsDecision w localAdministrator .approved "checked by me" := by
  have h : (((system sampleEnv).play (initial 0 0) replayedRun).threads[3]?.bind fun t =>
      t.rest.returned.bind fun w => w.approvalDecision.map fun a => decide
        (t.call = .decideApproval localAdministrator "w" .approved "checked by me" "key-2" "c-4" ∧
          a.reviewerId = "local-reviewer" ∧ a.reason = "reviewed")) = some true := by
    decide +kernel
  obtain ⟨t, ht, h⟩ := Option.bind_eq_some_iff.mp h
  obtain ⟨w, hw, h⟩ := Option.bind_eq_some_iff.mp h
  obtain ⟨a, ha, h⟩ := Option.map_eq_some_iff.mp h
  obtain ⟨hcall, hrev, hreason⟩ := of_decide_eq_true h
  refine ⟨t, w, a, ht, hcall, Program.outcome_of_returned hw, ha, hrev, hreason, ?_⟩
  rintro ⟨a', ha', hrev', -⟩
  rw [ha] at ha'
  cases ha'
  rw [hrev] at hrev'
  exact absurd hrev' (by decide)

end AgenticDelivery.Api
