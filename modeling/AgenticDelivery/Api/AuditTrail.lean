import AgenticDelivery.Api.Exits
import AgenticDelivery.Api.Hindsight
import AgenticDelivery.Api.Timestamps

/-! # Refusals and their audit events

A refused call should leave an event of its own in the audit sink whose outcome
is not a permitting one. Some refusals do not: `Unaudited` lists them, by the
arguments of the call, by what it has read, and by what the other callers have done. -/
namespace AgenticDelivery.Api
open AgenticDelivery.Atomic AgenticDelivery.Data AgenticDelivery.Governance AgenticDelivery.Runtime
open Service Program

variable {env : Environment} {c : PoolConfig} {tid : Nat} {log : List CallEvent} {call : Call}
  {o : Except Failure Workflow}

/-- The outcomes of events that record a permission or a success. -/
def permittingOutcomes : List String :=
  ["permit", "permit_with_controls", "accepted", "allowed", "approved", "evaluated", "completed"]

/-- Since the call began the sink has an event of it which records that it was refused. -/
def RefusalAudited (c : PoolConfig) (t : Caller) : Prop :=
  ∃ e ∈ c.state.audit.drop t.born.audit.length, e.note ∈ notes t.log ∧
    e.subject = some t.call.principal.subject ∧ e.correlationId = t.call.correlationId ∧
    e.outcome ∉ permittingOutcomes

/-- A call that is refused records it; an empty queue is no refusal. -/
def AuditsRefusal (c : PoolConfig) (t : Caller) : Prop :=
  ∀ kind detail, t.rest.outcome = some (.error (.application kind detail)) →
    kind ≠ .noPendingTask → RefusalAudited c t

def planOf : CallEvent → Option PlanningResult
  | ⟨.runtimePlan _, .ok result⟩ => some result
  | _ => none

/-- The plans the runtime has given to a call. -/
def plans (log : List CallEvent) : List PlanningResult := log.filterMap planOf

/-- The policy refuses the step with a reason, and calls it a permission. -/
def SilentDenial (decision : PolicyDecision) : Prop :=
  decision.executionAllowed = false ∧ decision.reasons ≠ [] ∧ decision.outcome ≠ .deny

/-- The policy lets the step go on, and calls it a permission. -/
def Permission (decision : PolicyDecision) : Prop :=
  decision.executionAllowed = true ∧ decision.outcome ≠ .deny

/-- The planning of the workflow `w`, which the planner may plan and nobody has planned,
is refused without an event: by the policy, or because another caller was faster. -/
def UnauditedPlanning (env : Environment) (c : PoolConfig) (tid : Nat) (log : List CallEvent)
    (w : Workflow) : Prop :=
  SilentDenial (env.policy (planningContext w.processingContext)) ∨
  Permission (env.policy (planningContext w.processingContext)) ∧ plans log ≠ [] ∧
    Overtaken c tid w.workflowId w.stateVersion

/-- The decision `d` on the workflow `w`, by someone else than its owner, is refused
without an event. -/
def UnauditedDecision (c : PoolConfig) (tid : Nat) (log : List CallEvent) (d : Decision)
    (key : String) (w : Workflow) : Prop :=
  match w.actionProposal, w.approvalDecision with
  | none, _ => True
  | some proposal, some approval => approval.idempotencyKey ≠ key ∨ approval.decision ≠ d ∨
      d = .approved ∧ c.state.Misbound (createExecutionTask w.workflowId proposal.proposalDigest)
  | some proposal, none => w.status ≠ .awaitingApproval ∨
      Overtaken c tid w.workflowId w.stateVersion ∨
      (∃ now ∈ times log, now ≤ proposal.expiresAt) ∧ d = .approved ∧
        c.state.Misbound (createExecutionTask w.workflowId proposal.proposalDigest)

/-- The delivery of the workflow `w` is refused without an event. Besides the version it
read, a delivery can lose the one it has stored as executing. -/
def UnauditedDelivery (env : Environment) (c : PoolConfig) (tid : Nat) (log : List CallEvent)
    (w : Workflow) : Prop :=
  w.status = .expired ∨
  w.status = .executing ∧ Overtaken c tid w.workflowId w.stateVersion ∨
  w.status = .approved ∧ ∃ approval, w.approvalDecision = some approval ∧ ∃ now ∈ times log,
    (approval.expiresAt < now ∧ Overtaken c tid w.workflowId w.stateVersion ∨
    now ≤ approval.expiresAt ∧ (SilentDenial (env.policy (executionContext w.processingContext)) ∨
      Permission (env.policy (executionContext w.processingContext)) ∧
        (Overtaken c tid w.workflowId w.stateVersion ∨
          Overtaken c tid w.workflowId (w.stateVersion + 1))))

/-- The calls that are refused without an event: caller `tid`, with this log. -/
def Unaudited (env : Environment) (c : PoolConfig) (tid : Nat) (log : List CallEvent) :
    Call → Prop
  | .create r => r.principal.roles ∩ {.requester, .administrator} ≠ ∅ ∧
      (r.overlayIds.toFinset ≠ {"common-us-baseline"} ∨
        SilentDenial (r.decision env) ∨
        Permission (r.decision env) ∧ ∃ id w,
          c.state.bound r.principal.subject r.idempotencyKey = some id ∧
          c.state.stored id = some w ∧ ¬r.Matches env w)
  | .get .. => False
  | .plan p _ _ => ∃ w ∈ reads log, p.MayPlan w ∧ w.planningResult = none ∧
      UnauditedPlanning env c tid log w
  | .decideApproval p id d _ key _ => p.roles ∩ {.reviewer, .administrator} ≠ ∅ ∧
      (id ∈ missed log ∨
        ∃ w ∈ reads log, w.ownerId ≠ p.subject ∧ UnauditedDecision c tid log d key w)
  | .processNextTask p _ => p.MayProcess ∧ ∃ w ∈ reads log, UnauditedDelivery env c tid log w

/-! ## What an end owes -/

theorem value_permitting (outcome : PolicyOutcome) :
    outcome.value ∉ permittingOutcomes ↔ outcome = .deny := by
  cases outcome <;> decide

/-- What the call has noted contains a refusal. -/
def NotesRefusal (log : List CallEvent) : Prop := ∃ n ∈ notes log, n.outcome ∉ permittingOutcomes

/-- The end of a call records that it was refused. -/
def Records (o : Except Failure Workflow) (log : List CallEvent) : Prop :=
  ∀ kind detail, o = .error (.application kind detail) → kind ≠ .noPendingTask → NotesRefusal log

theorem Records.ok (w : Workflow) (log : List CallEvent) : Records (.ok w) log :=
  fun _ _ h => by cases h

theorem records_of_audit {action outcome correlationId : String}
    {subject resourceId : Option String}
    (h : ⟨.auditRecord action outcome subject resourceId correlationId, ()⟩ ∈ log)
    (ho : outcome ∉ permittingOutcomes) : Records o log :=
  fun _ _ _ _ => ⟨_, List.mem_filterMap.mpr ⟨_, h, rfl⟩, ho⟩

theorem not_records {kind : ErrorKind} {detail : String} (hk : kind ≠ .noPendingTask)
    (ho : ¬NotesRefusal log) : ¬Records (.error (.application kind detail)) log :=
  fun h => ho (h kind detail rfl hk)

/-- An error without any note is not recorded. -/
theorem unrecorded {kind : ErrorKind} {detail : String} {U : Prop} (hk : kind ≠ .noPendingTask)
    (hn : notes log = []) (hu : U) :
    Records (.error (.application kind detail)) log ↔ ¬U := by
  refine iff_of_false (not_records hk ?_) (not_not.mpr hu)
  rintro ⟨n, hm, -⟩
  rw [hn] at hm
  cases hm

section Verdict
variable {action noteId : String} {subject resourceId : Option String} {decision : PolicyDecision}

/-- A single note of the policy's answer is a refusal when the answer is. -/
theorem notesRefusal_verdict
    (h : notes log = [⟨action, decision.outcome.value, subject, resourceId, noteId⟩]) :
    NotesRefusal log ↔ decision.outcome = .deny := by
  rw [NotesRefusal, h, ← value_permitting]
  simp only [List.mem_singleton, exists_eq_left]

/-- A denial is recorded by the outcome of the policy, unless the policy calls it a
permission. -/
theorem records_refusal (hd : decision.executionAllowed = false)
    (h : notes log = [⟨action, decision.outcome.value, subject, resourceId, noteId⟩]) :
    Records (.error (refusal decision)) log ↔ ¬SilentDenial decision := by
  by_cases ho : decision.outcome = .deny
  · refine iff_of_true (fun _ _ _ _ => (notesRefusal_verdict h).mpr ho) ?_
    exact fun hs => hs.2.2 ho
  · cases hr : decision.reasons with
    | nil =>
      have he : refusal decision = .indexError "tuple index out of range" := by
        rw [refusal, hr]
        rfl
      rw [he]
      refine iff_of_true (fun _ _ hk => by cases hk) ?_
      exact fun hs => hs.2.1 hr
    | cons reason rest =>
      have he : refusal decision = .application .dataProcessingDenied reason := by
        rw [refusal, hr]
        rfl
      rw [he]
      refine iff_of_false (not_records (by decide) ((notesRefusal_verdict h).not.mpr ho)) ?_
      exact not_not.mpr ⟨hd, by rw [hr]; exact List.cons_ne_nil _ _, ho⟩

/-- An error after a permission of the policy is recorded when the permission is called a
denial. -/
theorem records_after {kind : ErrorKind} {detail : String} (hk : kind ≠ .noPendingTask)
    (hd : decision.executionAllowed = true)
    (h : notes log = [⟨action, decision.outcome.value, subject, resourceId, noteId⟩]) :
    Records (.error (.application kind detail)) log ↔ ¬Permission decision := by
  by_cases ho : decision.outcome = .deny
  · exact iff_of_true (fun _ _ _ _ => (notesRefusal_verdict h).mpr ho) fun hp => hp.2 ho
  · exact iff_of_false (not_records hk ((notesRefusal_verdict h).not.mpr ho))
      (not_not.mpr ⟨hd, ho⟩)

end Verdict

/-! ## The methods

The log of a call that has ended, read from its start. -/

section Methods
variable {p : Principal} {id correlationId key reason : String} {d : Decision} {w : Workflow}
  {proposal : ToolActionProposal} {approval : ApprovalDecision}

theorem records_get (hs : Hindsight env c tid log)
    (h : (WorkflowService.get p id correlationId).Follows [] log o) : Records o log := by
  obtain ⟨found, -, h, -⟩ := hs.get h
  have hidden : (WorkflowService.get.notFound p id correlationId).Follows
      ([] ++ [⟨.repositoryGet id, found⟩]) log o → Records o log := by
    intro h
    obtain ⟨hnote, -⟩ := follows_audit h
    exact records_of_audit hnote (by decide)
  cases found with
  | none => exact hidden h
  | some w =>
    dsimp only at h
    split at h
    · exact hidden h
    · obtain ⟨-, h⟩ := follows_audit h
      obtain ⟨-, rfl⟩ := h.done
      exact .ok _ _

theorem records_create {r : CreateRequest} (hs : Hindsight env c tid log)
    (hp : Created env r o c.state)
    (h : (WorkflowService.create env r).Follows [] log o) :
    Records o log ↔ ¬Unaudited env c tid log (.create r) := by
  unfold WorkflowService.create at h
  by_cases role : r.principal.roles ∩ {.requester, .administrator} = ∅
  · rw [if_pos role] at h
    obtain ⟨hnote, -⟩ := follows_audit h
    exact iff_of_true (records_of_audit hnote (by decide)) fun h => h.1 role
  rw [if_neg role] at h
  dsimp only at h
  by_cases overlay : r.overlayIds.toFinset ≠ {"common-us-baseline"}
  · rw [if_pos overlay] at h
    obtain ⟨rfl, rfl⟩ := follows_fail h
    exact unrecorded (by decide) rfl ⟨role, .inl overlay⟩
  rw [if_neg overlay] at h
  have h := hs.evaluate (hs.classify h)
  obtain ⟨-, h⟩ := follows_audit h
  by_cases refused : (r.decision env).executionAllowed = false
  · rw [if_pos (by exact refused), denyProcessing_refusal] at h
    obtain ⟨hl, rfl⟩ := h.raise
    refine (records_refusal refused (by rw [hl]; rfl)).trans (not_congr ?_)
    refine ⟨fun h => ⟨role, .inr (.inl h)⟩, fun h => ?_⟩
    rcases h.2 with ho | hd | ⟨hd, -⟩
    · exact absurd ho overlay
    · exact hd
    · exact absurd (refused.symm.trans hd.1) (by decide)
  rw [if_neg (by exact refused)] at h
  have allowed : (r.decision env).executionAllowed = true := eq_true_of_ne_false refused
  have admitted : r.Admitted env := ⟨role, not_not.mp overlay, allowed⟩
  have unaudited_iff : Unaudited env c tid log (.create r) ↔ Permission (r.decision env) ∧
      ∃ id w, c.state.bound r.principal.subject r.idempotencyKey = some id ∧
        c.state.stored id = some w ∧ ¬r.Matches env w := by
    refine ⟨fun h => ?_, fun h => ⟨role, .inr (.inr h)⟩⟩
    rcases h.2 with ho | hd | h
    · exact absurd ho overlay
    · exact absurd (hd.1.symm.trans allowed) (by decide)
    · exact h
  rw [unaudited_iff]
  obtain ⟨_, -, h⟩ := h.perform
  obtain ⟨_, -, h⟩ := h.perform
  obtain ⟨_, -, ⟨e, rfl, hl, rfl⟩ | ⟨v, -, h⟩⟩ := h.performOrRaise
  · obtain ⟨rfl, other⟩ := hp admitted
    refine (records_after (by decide) allowed (by rw [hl]; rfl)).trans (not_congr ?_)
    exact (and_iff_left other).symm
  · obtain ⟨-, h⟩ := follows_audit h
    obtain ⟨-, rfl⟩ := h.done
    obtain ⟨-, -, hreq, hloc, hb, hk⟩ := hp
    refine iff_of_true (.ok _ _) ?_
    rintro ⟨-, id, w, hb', hw, hno⟩
    cases hb.symm.trans hb'
    obtain ⟨w', hw', hl⟩ := hk.stored
    cases hw.symm.trans hw'
    have hg := hl.grows hk.life
    exact hno ⟨hg.request.trans hreq, hg.requestedLocale.trans hloc⟩

theorem records_plan (hs : Hindsight env c tid log)
    (h : (WorkflowService.plan env p id correlationId).Follows [] log o) :
    Records o log ↔ ¬Unaudited env c tid log (.plan p id correlationId) := by
  obtain ⟨found, -, h, hfound⟩ := hs.get h
  have hidden : (∀ w, found = some w → ¬p.MayPlan w) →
      (WorkflowService.plan.notFound p id correlationId).Follows
        ([] ++ [⟨.repositoryGet id, found⟩]) log o →
      (Records o log ↔ ¬Unaudited env c tid log (.plan p id correlationId)) := by
    intro hno h
    obtain ⟨hnote, h⟩ := follows_audit h
    obtain ⟨hl, -⟩ := follows_fail h
    have hr : reads log = found.toList := by rw [hl]; simp
    refine iff_of_true (records_of_audit hnote (by decide)) ?_
    rintro ⟨w, hw, hmay, -⟩
    rw [hr, Option.mem_toList] at hw
    exact hno w hw hmay
  cases found with
  | none => exact hidden (fun _ h => by cases h) h
  | some w =>
  dsimp only at h
  by_cases hauth : w.ownerId ≠ p.subject ∧ .administrator ∉ p.roles
  · rw [if_pos hauth] at h
    refine hidden (fun v hv hmay => ?_) h
    cases hv
    exact hmay.elim hauth.1 hauth.2
  rw [if_neg hauth] at h
  rw [not_and_or, not_not, not_not] at hauth
  have unaudited_iff : reads log = [w] → (Unaudited env c tid log (.plan p id correlationId) ↔
      w.planningResult = none ∧ UnauditedPlanning env c tid log w) := by
    intro hr
    rw [Unaudited, hr]
    simp only [List.mem_singleton, exists_eq_left]
    exact and_iff_right hauth
  by_cases hplanned : w.planningResult ≠ none
  · rw [if_pos hplanned] at h
    obtain ⟨hl, rfl⟩ := h.done
    rw [unaudited_iff (by rw [hl]; rfl)]
    exact iff_of_true (.ok _ _) fun h => hplanned h.1
  rw [if_neg hplanned] at h
  rw [not_not] at hplanned
  rw [if_neg (not_not.mpr ((hfound w rfl).2.received_of_unplanned hplanned))] at h
  have h := hs.evaluate h
  obtain ⟨-, h⟩ := follows_audit h
  by_cases refused : (env.policy (planningContext w.processingContext)).executionAllowed = false
  · rw [if_pos refused, denyProcessing_refusal] at h
    obtain ⟨hl, rfl⟩ := h.raise
    rw [unaudited_iff (by rw [hl]; rfl), records_refusal refused (by rw [hl]; rfl), not_iff_not]
    refine ⟨fun h => ⟨hplanned, .inl h⟩, ?_⟩
    rintro ⟨-, h | ⟨hp, -⟩⟩
    · exact h
    · exact absurd (refused.symm.trans hp.1) (by decide)
  rw [if_neg refused] at h
  have allowed := eq_true_of_ne_false refused
  have unplanned : reads log = [w] → plans log = [] →
      ¬Unaudited env c tid log (.plan p id correlationId) := by
    intro hr hno
    rw [unaudited_iff hr]
    rintro ⟨-, hd | ⟨-, hplans, -⟩⟩
    · exact refused hd.1
    · exact hplans hno
  obtain ⟨answer, -, h⟩ := h.perform
  cases answer with
  | error e =>
    cases e with
    | promptInjectionBlocked message =>
      obtain ⟨hnote, h⟩ := follows_audit h
      obtain ⟨hl, rfl⟩ := follows_fail h
      exact iff_of_true (records_of_audit hnote (by decide))
        (unplanned (by rw [hl]; rfl) (by rw [hl]; rfl))
    | evaluationGateBlocked result =>
      obtain ⟨hnote, h⟩ := follows_audit h
      obtain ⟨hl, rfl⟩ := follows_fail h
      exact iff_of_true (records_of_audit hnote (by decide))
        (unplanned (by rw [hl]; rfl) (by rw [hl]; rfl))
    | other message =>
      obtain ⟨hl, rfl⟩ := h.raise
      exact iff_of_true (fun _ _ hk => by cases hk)
        (unplanned (by rw [hl]; rfl) (by rw [hl]; rfl))
  | ok result =>
    obtain ⟨now, -, h⟩ := h.perform
    obtain ⟨utc, -, h⟩ := h.perform
    rcases hs.update h (by simp) rfl (by simp [Replaces]) with ⟨lost, rfl, hl⟩ | ⟨kept, h⟩
    · rw [unaudited_iff (by rw [hl]; rfl)]
      refine (records_after (by decide) allowed (by rw [hl]; rfl)).trans (not_congr ?_)
      refine ⟨fun hp => ⟨hplanned, .inr ⟨hp, ?_, lost⟩⟩, ?_⟩
      · rw [hl]
        exact List.cons_ne_nil _ _
      · rintro ⟨-, hd | ⟨hp, -⟩⟩
        · exact absurd hd.1 refused
        · exact hp
    · obtain ⟨-, h⟩ := follows_audit h
      obtain ⟨hl, rfl⟩ := h.done
      rw [unaudited_iff (by rw [hl]; rfl)]
      refine iff_of_true (.ok _ _) ?_
      rintro ⟨-, hd | ⟨-, -, hover⟩⟩
      · exact refused hd.1
      · exact kept hover

/-- The replay of a decision is refused without an event, or returns. -/
theorem records_replay (hs : Hindsight env c tid log) (hp : w.actionProposal = some proposal)
    (ha : w.approvalDecision = some approval)
    (hiff : reads log = [w] → missed log = [] →
      (Unaudited env c tid log call ↔ UnauditedDecision c tid log d key w))
    (h : (WorkflowService.replayDecision w approval d key).Follows
      ([] ++ [⟨.repositoryGet id, some w⟩]) log o) :
    Records o log ↔ ¬Unaudited env c tid log call := by
  rw [UnauditedDecision, hp, ha] at hiff
  dsimp only at hiff
  unfold WorkflowService.replayDecision at h
  by_cases hkey : approval.idempotencyKey ≠ key
  · rw [if_pos hkey] at h
    obtain ⟨hl, rfl⟩ := follows_fail h
    rw [hiff (by rw [hl]; rfl) (by rw [hl]; rfl)]
    exact unrecorded (by decide) (by rw [hl]; rfl) (.inl hkey)
  rw [if_neg hkey] at h
  by_cases hd : approval.decision ≠ d
  · rw [if_pos hd] at h
    obtain ⟨hl, rfl⟩ := follows_fail h
    rw [hiff (by rw [hl]; rfl) (by rw [hl]; rfl)]
    exact unrecorded (by decide) (by rw [hl]; rfl) (.inr (.inl hd))
  rw [if_neg hd, hp] at h
  dsimp only at h
  cases d with
  | rejected =>
    obtain ⟨hl, rfl⟩ := h.done
    rw [hiff (by rw [hl]; rfl) (by rw [hl]; rfl)]
    refine iff_of_true (.ok _ _) ?_
    rintro (h | h | ⟨h, -⟩)
    · exact hkey h
    · exact hd h
    · cases h
  | approved =>
    simp only [WorkflowService.enqueueApproved, Program.bind_assoc] at h
    rcases hs.enqueue h with ⟨misbound, rfl, hl⟩ | ⟨clear, u, h⟩
    · rw [hiff (by rw [hl]; rfl) (by rw [hl]; rfl)]
      exact unrecorded (by decide) (by rw [hl]; rfl) (.inr (.inr ⟨rfl, misbound⟩))
    · obtain ⟨hl, rfl⟩ := h.done
      rw [hiff (by rw [hl]; rfl) (by rw [hl]; rfl)]
      refine iff_of_true (.ok _ _) ?_
      rintro (h | h | ⟨-, h⟩)
      · exact hkey h
      · exact hd h
      · exact clear h

/-- A first decision is recorded as expired, or refused without an event, or returns. -/
theorem records_firstDecision (hs : Hindsight env c tid log) (hid : w.workflowId = id)
    (hp : w.actionProposal = some proposal) (hn : w.approvalDecision = none)
    (status : w.status = .awaitingApproval)
    (hiff : reads log = [w] → missed log = [] →
      (Unaudited env c tid log call ↔ UnauditedDecision c tid log d key w))
    (h : (WorkflowService.firstDecision p id w proposal d reason key correlationId).Follows
      ([] ++ [⟨.repositoryGet id, some w⟩]) log o) :
    Records o log ↔ ¬Unaudited env c tid log call := by
  rw [UnauditedDecision, hp, hn] at hiff
  simp only [status, ne_eq, not_true_eq_false, false_or] at hiff
  subst hid
  obtain ⟨now, -, h⟩ := h.perform
  by_cases late : now > proposal.expiresAt
  · rw [if_pos late] at h
    rcases hs.update h (by simp) rfl (by simp [Replaces]) with ⟨lost, rfl, hl⟩ | ⟨kept, h⟩
    · rw [hiff (by rw [hl]; rfl) (by rw [hl]; rfl)]
      exact unrecorded (by decide) (by rw [hl]; rfl) (.inl lost)
    · obtain ⟨hnote, h⟩ := follows_audit h
      obtain ⟨hl, rfl⟩ := follows_fail h
      have ht : times log = [now] := by rw [hl]; rfl
      rw [hiff (by rw [hl]; rfl) (by rw [hl]; rfl)]
      refine iff_of_true (records_of_audit hnote (by decide)) ?_
      rintro (h | ⟨⟨t, hm, hle⟩, -⟩)
      · exact kept h
      · rw [ht, List.mem_singleton] at hm
        exact absurd late (not_lt.mpr (hm ▸ hle))
  rw [if_neg late] at h
  rcases hs.update h (by simp) rfl (by simp [Replaces]) with ⟨lost, rfl, hl⟩ | ⟨kept, h⟩
  · rw [hiff (by rw [hl]; rfl) (by rw [hl]; rfl)]
    exact unrecorded (by decide) (by rw [hl]; rfl) (.inl lost)
  cases d with
  | rejected =>
    obtain ⟨-, h⟩ := follows_audit h
    obtain ⟨hl, rfl⟩ := h.done
    rw [hiff (by rw [hl]; rfl) (by rw [hl]; rfl)]
    refine iff_of_true (.ok _ _) ?_
    rintro (h | ⟨-, h, -⟩)
    · exact kept h
    · cases h
  | approved =>
    simp only [WorkflowService.enqueueApproved, Program.bind_assoc] at h
    rcases hs.enqueue h with ⟨misbound, rfl, hl⟩ | ⟨clear, u, h⟩
    · have ht : times log = [now] := by rw [hl]; rfl
      rw [hiff (by rw [hl]; rfl) (by rw [hl]; rfl)]
      refine unrecorded (by decide) (by rw [hl]; rfl)
        (.inr ⟨⟨now, ?_, not_lt.mp late⟩, rfl, misbound⟩)
      rw [ht]
      exact List.mem_singleton_self _
    · obtain ⟨-, h⟩ := follows_audit h
      obtain ⟨hl, rfl⟩ := h.done
      rw [hiff (by rw [hl]; rfl) (by rw [hl]; rfl)]
      refine iff_of_true (.ok _ _) ?_
      rintro (h | ⟨-, -, h⟩)
      · exact kept h
      · exact clear h

theorem records_decide (hs : Hindsight env c tid log)
    (h : (WorkflowService.decideApproval p id d reason key correlationId).Follows [] log o) :
    Records o log ↔
      ¬Unaudited env c tid log (.decideApproval p id d reason key correlationId) := by
  unfold WorkflowService.decideApproval at h
  by_cases role : p.roles ∩ {.reviewer, .administrator} = ∅
  · rw [if_pos role] at h
    obtain ⟨hnote, -⟩ := follows_audit h
    exact iff_of_true (records_of_audit hnote (by decide)) fun h => h.1 role
  rw [if_neg role] at h
  obtain ⟨found, -, h, hfound⟩ := hs.get h
  cases found with
  | none =>
    obtain ⟨hl, rfl⟩ := follows_fail h
    refine unrecorded (by decide) (by rw [hl]; rfl) ⟨role, .inl ?_⟩
    rw [hl]
    exact List.mem_singleton_self _
  | some w =>
  dsimp only at h
  by_cases own : w.ownerId = p.subject
  · rw [if_pos own] at h
    obtain ⟨hnote, h⟩ := follows_audit h
    obtain ⟨hl, -⟩ := follows_fail h
    have hr : reads log = [w] := by rw [hl]; rfl
    have hm : missed log = [] := by rw [hl]; rfl
    refine iff_of_true (records_of_audit hnote (by decide)) ?_
    rintro ⟨-, h | ⟨v, hv, hno, -⟩⟩
    · rw [hm] at h
      cases h
    · rw [hr, List.mem_singleton] at hv
      exact hno (hv ▸ own)
  rw [if_neg own] at h
  have hiff : reads log = [w] → missed log = [] →
      (Unaudited env c tid log (.decideApproval p id d reason key correlationId) ↔
        UnauditedDecision c tid log d key w) := by
    intro hr hm
    rw [Unaudited, hr, hm]
    simp only [List.not_mem_nil, List.mem_singleton, exists_eq_left, false_or]
    rw [and_iff_right role, and_iff_right own]
  obtain ⟨hid, hlife⟩ := hfound w rfl
  cases ha : w.approvalDecision with
  | some approval =>
    rw [ha] at h
    obtain ⟨_, _, proposal, _, _, _, _, hp, -⟩ := hlife.decided ha
    exact records_replay hs hp ha hiff h
  | none =>
  rw [ha] at h
  cases hp : w.actionProposal with
  | none =>
    rw [hp] at h
    obtain ⟨hl, rfl⟩ := follows_fail h
    rw [hiff (by rw [hl]; rfl) (by rw [hl]; rfl), UnauditedDecision, hp]
    exact unrecorded (by decide) (by rw [hl]; rfl) trivial
  | some proposal =>
    rw [hp] at h
    dsimp only at h
    by_cases status : w.status ≠ .awaitingApproval
    · rw [if_pos status] at h
      obtain ⟨hl, rfl⟩ := follows_fail h
      rw [hiff (by rw [hl]; rfl) (by rw [hl]; rfl), UnauditedDecision, hp, ha]
      exact unrecorded (by decide) (by rw [hl]; rfl) (.inl status)
    · rw [if_neg status] at h
      exact records_firstDecision hs hid hp ha (not_not.mp status) hiff h

/-- The end of a delivery, from a version the call has seen: it is lost to another caller,
or it returns. -/
theorem follows_finishExecution (hs : Hindsight env c tid log) {task : ExecutionTask}
    {actor : String} {now : Datetime} {before : List CallEvent} (hseen : w ∈ seen before)
    (hno : ∀ e ∈ before, ¬Replaces w.workflowId w.stateVersion e) (ha : w.approvalDecision ≠ none)
    (h : (WorkflowService.finishExecution task actor correlationId proposal now w).Follows before
      log o) :
    reads log = reads before ∧ times log = times before ∧
      (Overtaken c tid w.workflowId w.stateVersion ∧ o = .error staleUpdate ∧
          notes log = notes before ∨
        ¬Overtaken c tid w.workflowId w.stateVersion ∧ ∃ w', o = .ok w') := by
  obtain ⟨result, h⟩ := hs.execute h
  obtain ⟨approval, ha⟩ := Option.ne_none_iff_exists'.mp ha
  cases hw : w.completeExecution result now with
  | error e => rw [Workflow.completeExecution, ha] at hw; cases hw
  | ok w' =>
    rw [hw, orRaise_ok, done_bind] at h
    obtain ⟨_, -, hw'⟩ := completeExecution_ok hw
    have hno' : ∀ e ∈ before ++ [⟨.execute task proposal now, .ok result⟩],
        ¬Replaces w.workflowId w.stateVersion e := by
      intro e he
      rcases List.mem_append.mp he with he | he
      · exact hno e he
      · rw [List.mem_singleton.mp he]
        exact fun h => h
    rcases hs.update h (by simp [hseen]) (by rw [hw']) hno' with ⟨lost, ho, hl⟩ | ⟨kept, h⟩
    · exact ⟨by rw [hl]; simp, by rw [hl]; simp, .inl ⟨lost, ho, by rw [hl]; simp⟩⟩
    · obtain ⟨_, -, h⟩ := h.perform
      obtain ⟨-, h⟩ := follows_audit h
      obtain ⟨hl, ho⟩ := h.done
      exact ⟨by rw [hl]; simp, by rw [hl]; simp, .inr ⟨kept, w', ho⟩⟩

/-- The delivery of an approved workflow. -/
theorem records_startExecution (hs : Hindsight env c tid log) {task : ExecutionTask}
    {now : Datetime} (status : w.status = .approved) (ha : w.approvalDecision = some approval)
    (hiff : reads log = [w] → (Unaudited env c tid log call ↔ UnauditedDelivery env c tid log w))
    (h : (WorkflowService.startExecution task p.subject correlationId w approval now >>=
      WorkflowService.finishExecution task p.subject correlationId proposal now).Follows
        ([] ++ [⟨.claimNext, .ok (some task)⟩] ++ [⟨.repositoryGet task.workflowId, some w⟩] ++
          [⟨.nowFactory, now⟩]) log o) :
    Records o log ↔ ¬Unaudited env c tid log call := by
  have delivery_iff : times log = [now] → (UnauditedDelivery env c tid log w ↔
      (approval.expiresAt < now ∧ Overtaken c tid w.workflowId w.stateVersion ∨
      now ≤ approval.expiresAt ∧
        (SilentDenial (env.policy (executionContext w.processingContext)) ∨
          Permission (env.policy (executionContext w.processingContext)) ∧
            (Overtaken c tid w.workflowId w.stateVersion ∨
              Overtaken c tid w.workflowId (w.stateVersion + 1))))) := by
    intro ht
    simp [UnauditedDelivery, status, ha, ht]
  unfold WorkflowService.startExecution at h
  by_cases late : now > approval.expiresAt
  · rw [if_pos late] at h
    simp only [Program.bind_assoc] at h
    rcases hs.update h (by simp) rfl (by simp [Replaces]) with ⟨lost, rfl, hl⟩ | ⟨kept, h⟩
    · rw [hiff (by rw [hl]; rfl), delivery_iff (by rw [hl]; rfl)]
      exact unrecorded (by decide) (by rw [hl]; rfl) (.inl ⟨late, lost⟩)
    · obtain ⟨_, -, h⟩ := h.perform
      obtain ⟨hnote, h⟩ := follows_audit h
      obtain ⟨hl, -⟩ := h.raise
      rw [hiff (by rw [hl]; rfl), delivery_iff (by rw [hl]; rfl)]
      refine iff_of_true (records_of_audit hnote (by decide)) ?_
      rintro (⟨-, h⟩ | ⟨h, -⟩)
      · exact kept h
      · exact absurd late (not_lt.mpr h)
  rw [if_neg late] at h
  simp only [Program.bind_assoc] at h
  have h := hs.evaluate h
  obtain ⟨-, h⟩ := follows_audit h
  rw [ite_bind] at h
  have intime_iff : reads log = [w] → times log = [now] → (Unaudited env c tid log call ↔
      SilentDenial (env.policy (executionContext w.processingContext)) ∨
        Permission (env.policy (executionContext w.processingContext)) ∧
          (Overtaken c tid w.workflowId w.stateVersion ∨
            Overtaken c tid w.workflowId (w.stateVersion + 1))) := by
    intro hr ht
    rw [hiff hr, delivery_iff ht, or_iff_right fun h => late h.1, and_iff_right (not_lt.mp late)]
  by_cases refused : (env.policy (executionContext w.processingContext)).executionAllowed = false
  · rw [if_pos refused, denyProcessing_refusal] at h
    obtain ⟨hl, rfl⟩ := h.raise
    rw [intime_iff (by rw [hl]; rfl) (by rw [hl]; rfl),
      records_refusal refused (by rw [hl]; rfl), not_iff_not]
    refine ⟨.inl, ?_⟩
    rintro (h | ⟨h, -⟩)
    · exact h
    · exact absurd (refused.symm.trans h.1) (by decide)
  rw [if_neg refused] at h
  have allowed := eq_true_of_ne_false refused
  have started_iff : reads log = [w] → times log = [now] → (Unaudited env c tid log call ↔
      Permission (env.policy (executionContext w.processingContext)) ∧
        (Overtaken c tid w.workflowId w.stateVersion ∨
          Overtaken c tid w.workflowId (w.stateVersion + 1))) := by
    intro hr ht
    rw [intime_iff hr ht, or_iff_right fun h => refused h.1]
  rcases hs.update h (by simp) rfl (by simp [Replaces]) with ⟨lost, rfl, hl⟩ | ⟨kept, h⟩
  · rw [started_iff (by rw [hl]; rfl) (by rw [hl]; rfl), and_iff_left (.inl lost)]
    exact records_after (by decide) allowed (by rw [hl]; rfl)
  obtain ⟨hr, ht, ⟨lost, rfl, hn⟩ | ⟨kept', w', rfl⟩⟩ := follows_finishExecution hs (by simp)
    (by simp [Replaces, Workflow.beginExecution]) (by simp [Workflow.beginExecution, ha]) h
  · rw [started_iff (by rw [hr]; rfl) (by rw [ht]; rfl), and_iff_left (.inr lost)]
    exact records_after (by decide) allowed (by rw [hn]; rfl)
  · rw [started_iff (by rw [hr]; rfl) (by rw [ht]; rfl)]
    refine iff_of_true (.ok _ _) ?_
    rintro ⟨-, h | h⟩
    · exact kept h
    · exact kept' h

theorem records_process (hs : Hindsight env c tid log)
    (h : (WorkflowService.processNextTask p correlationId).Follows [] log o) :
    Records o log ↔ ¬Unaudited env c tid log (.processNextTask p correlationId) := by
  unfold WorkflowService.processNextTask at h
  by_cases role : p.roles ∩ {.operator, .administrator} = ∅
  · rw [if_pos role] at h
    obtain ⟨hnote, -⟩ := follows_audit h
    exact iff_of_true (records_of_audit hnote (by decide)) fun h => h.1 role
  rw [if_neg role] at h
  obtain ⟨claimed, h⟩ := hs.claimNext h
  cases claimed with
  | none =>
    obtain ⟨hl, rfl⟩ := follows_fail h
    have hr : reads log = [] := by rw [hl]; rfl
    refine iff_of_true (fun kind detail hk hne => ?_) ?_
    · cases hk
      exact absurd rfl hne
    · rintro ⟨-, w, hw, -⟩
      rw [hr] at hw
      cases hw
  | some task =>
  obtain ⟨found, hp, h, -⟩ := hs.get h
  obtain ⟨w, rfl, hlife, htask⟩ := hs.delivers (by simp) hp
  have hiff : reads log = [w] → (Unaudited env c tid log (.processNextTask p correlationId) ↔
      UnauditedDelivery env c tid log w) := by
    intro hr
    rw [Unaudited, hr]
    simp only [List.mem_singleton, exists_eq_left]
    exact and_iff_right role
  dsimp only at h
  by_cases done : w.status = .completed
  · have he := hlife.evidence
    rw [Evidence, done] at he
    obtain ⟨-, -, proposal, result, hprop, hx, hd, -⟩ := he
    rw [done, hx] at h
    dsimp only at h
    rw [if_neg (not_not.mpr (hd.trans (htask.proposalDigest hprop).symm))] at h
    obtain ⟨_, -, h⟩ := h.perform
    obtain ⟨hl, rfl⟩ := h.done
    rw [hiff (by rw [hl]; rfl), UnauditedDelivery, done]
    exact iff_of_true (.ok _ _) (by simp)
  obtain ⟨proposal, approval, hprop, ha, hrun⟩ :=
    deliverTask_eq hlife htask p.subject correlationId
  split at h
  · rename_i hs' _
    exact absurd hs' done
  rw [hrun] at h
  obtain ⟨now, -, h⟩ := h.perform
  rcases htask.status hlife with status | status | status | status
  · rw [if_pos status] at h
    exact records_startExecution hs status ha hiff h
  · rw [if_neg (by rw [status]; decide), if_neg (not_not.mpr status)] at h
    have delivery_iff : UnauditedDelivery env c tid log w ↔
        Overtaken c tid w.workflowId w.stateVersion := by
      simp [UnauditedDelivery, status]
    obtain ⟨hr, -, ⟨lost, rfl, hn⟩ | ⟨kept, w', rfl⟩⟩ := follows_finishExecution hs (by simp)
      (by simp [Replaces]) (by simp [ha]) h
    · rw [hiff (by rw [hr]; rfl), delivery_iff]
      exact unrecorded (by decide) (by rw [hn]; rfl) lost
    · rw [hiff (by rw [hr]; rfl), delivery_iff]
      exact iff_of_true (.ok _ _) kept
  · exact absurd status done
  · rw [if_neg (by rw [status]; decide), if_pos (by rw [status]; decide)] at h
    obtain ⟨hl, rfl⟩ := follows_fail h
    rw [hiff (by rw [hl]; rfl)]
    exact unrecorded (by decide) (by rw [hl]; rfl) (.inl status)

end Methods

/-! ## Every caller -/

/-- The events of the sink that a call owes to its refusal are those it has noted. -/
theorem Reachable.refusalAudited_iff (hf : Function.Injective env.idFactory)
    (hc : Reachable env c) {t : Caller} (ht : c.threads[tid]? = some t) :
    RefusalAudited c t ↔ NotesRefusal t.log := by
  constructor
  · rintro ⟨e, -, hn, -, -, ho⟩
    exact ⟨e.note, hn, ho⟩
  · rintro ⟨n, hn, ho⟩
    obtain ⟨x, hx, hnote⟩ := List.mem_filterMap.mp hn
    obtain ⟨e, he, rfl⟩ := hc.sunk hf ht hx n hnote
    obtain ⟨hsub, hcid, -⟩ := hc.borne hf ht hn
    exact ⟨e, he, hn, hsub, hcid, ho⟩

theorem Reachable.records_iff (hf : Function.Injective env.idFactory) (hc : Reachable env c)
    {t : Caller} (ht : c.threads[tid]? = some t) (ho : t.rest.outcome = some o) :
    Records o t.log ↔ ¬Unaudited env c tid t.log t.call := by
  have hs := hc.hindsight hf ht
  have hp := (hc.safeAt hf).post ht ho
  have hy : (t.call.body env).Yields t.log o := by
    obtain ⟨now, utc, h⟩ := hc
    exact h.yields rfl ht ho
  have h := Follows.start hy
  cases hcall : t.call <;> rw [hcall] at h hp
  case create r => exact records_create hs hp h
  case get p id correlationId => exact iff_of_true (records_get hs h) fun h => h
  case plan p id correlationId => exact records_plan hs h
  case decideApproval p id d reason key correlationId => exact records_decide hs h
  case processNextTask p correlationId => exact records_process hs h

/-- **Which refusals are audited.** In every configuration of every run, of every caller
that has ended: it has recorded its refusal, if it was refused, exactly when it is none of
the unaudited ones. -/
theorem audits_refusal_iff (hf : Function.Injective env.idFactory) (hc : Reachable env c)
    {t : Caller} (ht : c.threads[tid]? = some t) (hended : t.rest.outcome ≠ none) :
    AuditsRefusal c t ↔ ¬Unaudited env c tid t.log t.call := by
  obtain ⟨o, ho⟩ := Option.ne_none_iff_exists'.mp hended
  rw [← hc.records_iff hf ht ho, AuditsRefusal, ho]
  refine forall₂_congr fun kind detail => ?_
  rw [Option.some.injEq, hc.refusalAudited_iff hf ht]

/-- The reviewer decides on a workflow that nobody has created. -/
def missingRun : List (Move Call (Datetime × Datetime)) :=
  moves 0 (.decideApproval localReviewer "w" .approved "reviewed" "key-2" "c-3") 1

/-- The refusal leaves no event, where `get` and `plan` record it as not found. -/
theorem decide_missing_not_audited :
    ∃ t, ((system sampleEnv).play (initial 0 0) missingRun).threads[0]? = some t ∧
      t.rest.outcome = some (.error (.application .workflowNotFound
        "The workflow does not exist or is not accessible.")) ∧
      ¬AuditsRefusal ((system sampleEnv).play (initial 0 0) missingRun) t := by
  have h : (((system sampleEnv).play (initial 0 0) missingRun).threads[0]?.map fun t =>
      decide (t.rest.outcome = some (.error (.application .workflowNotFound
        "The workflow does not exist or is not accessible.")) ∧
        notes t.log = [])) = some true := by decide
  obtain ⟨t, ht, h⟩ := Option.map_eq_some_iff.mp h
  obtain ⟨ho, hn⟩ := of_decide_eq_true h
  refine ⟨t, ht, ho, fun hall => ?_⟩
  obtain ⟨e, -, hm, -⟩ := hall _ _ ho (by decide)
  rw [hn] at hm
  cases hm

/-- Two reviewers read the same pending proposal, and the first one decides; a reader of
another workflow comes last. -/
def racedRun : List (Move Call (Datetime × Datetime)) :=
  moves 0 (.create sampleRequest) 8 ++ moves 1 (.plan localRequester "w" "c-2") 8 ++
    moves 2 (.decideApproval localReviewer "w" .approved "reviewed" "key-2" "c-3") 1 ++
    moves 3 (.decideApproval localAdministrator "w" .rejected "not now" "key-3" "c-4") 1 ++
    List.replicate 5 (.act 2) ++ List.replicate 2 (.act 3) ++
    moves 4 (.get localRequester "x" "c-5") 2

/-- The slower reviewer is refused without an event, the reader with one. -/
theorem audits_refusal_iff_racedRun :
    (∃ t, ((system sampleEnv).play (initial 0 0) racedRun).threads[3]? = some t ∧
      t.rest.outcome = some (.error staleUpdate) ∧
      Unaudited sampleEnv ((system sampleEnv).play (initial 0 0) racedRun) 3 t.log t.call) ∧
    ∃ t, ((system sampleEnv).play (initial 0 0) racedRun).threads[4]? = some t ∧
      t.rest.outcome = some (.error (.application .workflowNotFound
        "The workflow does not exist or is not accessible.")) ∧
      AuditsRefusal ((system sampleEnv).play (initial 0 0) racedRun) t := by
  have hc := reachable_play sampleEnv 0 0 racedRun
  have h₃ : (((system sampleEnv).play (initial 0 0) racedRun).threads[3]?.map fun t =>
      decide (t.rest.outcome = some (.error staleUpdate) ∧ notes t.log = [])) = some true := by
    decide
  have h₄ : (((system sampleEnv).play (initial 0 0) racedRun).threads[4]?.map fun t =>
      decide (t.rest.outcome = some (.error (.application .workflowNotFound
        "The workflow does not exist or is not accessible.")) ∧
        t.call = .get localRequester "x" "c-5")) = some true := by decide
  constructor
  · obtain ⟨t, ht, h⟩ := Option.map_eq_some_iff.mp h₃
    obtain ⟨ho, hn⟩ := of_decide_eq_true h
    have hended : t.rest.outcome ≠ none := by rw [ho]; exact Option.some_ne_none _
    refine ⟨t, ht, ho, not_not.mp fun hno => ?_⟩
    have hall := (audits_refusal_iff sampleId_injective hc ht hended).mpr hno
    obtain ⟨e, -, hm, -⟩ := hall _ _ ho (by decide)
    rw [hn] at hm
    cases hm
  · obtain ⟨t, ht, h⟩ := Option.map_eq_some_iff.mp h₄
    obtain ⟨ho, hcall⟩ := of_decide_eq_true h
    have hended : t.rest.outcome ≠ none := by rw [ho]; exact Option.some_ne_none _
    refine ⟨t, ht, ho, (audits_refusal_iff sampleId_injective hc ht hended).mpr ?_⟩
    rw [hcall]
    exact fun h => h

end AgenticDelivery.Api
