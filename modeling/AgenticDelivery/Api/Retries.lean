import AgenticDelivery.Api.Sequential

/-! # Retries

What a `create`, `plan` or `decide_approval` call that has returned leaves in
the stores is enough, at any later time, for the same call to find its answer
there and to write nothing. -/
namespace AgenticDelivery.Api
open AgenticDelivery.Atomic AgenticDelivery.Data AgenticDelivery.Governance AgenticDelivery.Runtime

variable {env : Environment} {n n' : Nat} {s s' : State} {w w' : Workflow}
  {clock clock' : Nat → Datetime × Datetime}

/-- The calls whose answer is bound to what they have stored. -/
def Call.Replays : Call → Prop
  | .create _ | .plan .. | .decideApproval .. => True
  | .get .. | .processNextTask .. => False

/-- The queue holds the task under its identifier, for the same proposal. -/
def Enqueued (s : State) (task : ExecutionTask) : Prop :=
  ∃ t, s.taskQueue.tasks.get? task.taskId = some t ∧ t.proposalDigest = task.proposalDigest

/-- What makes a repetition of the call answer from the stores, with the workflow `w`. -/
def Settles (env : Environment) (s : State) (w : Workflow) : Call → Prop
  | .create r => r.Admitted env ∧ r.Matches env w ∧
      s.bound r.principal.subject r.idempotencyKey = some w.workflowId
  | .plan p id _ => id = w.workflowId ∧ p.MayPlan w ∧ w.planningResult ≠ none
  | .decideApproval p id d _ key _ => id = w.workflowId ∧ p.MayDecide w ∧
      ∃ approval proposal, w.approvalDecision = some approval ∧ approval.idempotencyKey = key ∧
        approval.decision = d ∧ w.actionProposal = some proposal ∧
        (d = .approved →
          Enqueued s (createExecutionTask w.workflowId proposal.proposalDigest))
  | .get .. | .processNextTask .. => False

/-- The answer is the workflow of `w` as it is stored, and no store was written. -/
structure Replayed (w : Workflow) (s : State) (r : Except Failure Workflow × State) : Prop where
  answer : ∃ w', r.1 = .ok w' ∧ w'.workflowId = w.workflowId ∧ s.stored w.workflowId = some w'
  stores : SameStores s r.2

/-! ## From the answer to the retry -/

theorem Evolve.enqueued {task : ExecutionTask} (he : Evolve env s s') (h : Enqueued s task) :
    Enqueued s' task := by
  obtain ⟨t, ht, hd⟩ := h
  obtain ⟨_, ht'⟩ := he.queued ht
  exact ⟨_, ht', hd⟩

/-- The answer to a call settles it. -/
theorem settles_of_ok {call : Call} (hc : Consistent env s) (hcall : call.Replays)
    {r : Except Failure Workflow × State} (he : Ends env clock s call r) (hok : r.1 = .ok w) :
    r.2.stored w.workflowId = some w ∧ Settles env r.2 w call := by
  obtain ⟨left, outcomes, hx, hs, -⟩ := he
  rw [hok] at hx
  have hst : ∀ id, r.2.stored id = left.stored id := fun id => by rw [State.stored, hs.repository]
  have hb : ∀ owner key, r.2.bound owner key = left.bound owner key :=
    fun owner key => by rw [State.bound, hs.repository]
  have hq : ∀ task, Enqueued r.2 task ↔ Enqueued left task :=
    fun task => by rw [Enqueued, hs.taskQueue, Enqueued]
  cases hx with
  | createReplayed admitted bound stored same =>
    obtain ⟨rfl, -⟩ := hc.stored stored
    rw [hst]
    exact ⟨stored, admitted, same, by rw [hb]; exact bound⟩
  | created admitted unbound =>
    rw [hst]
    exact ⟨insert_stored_self .., admitted, ⟨rfl, rfl⟩,
      by rw [hb, insert_bound]; exact if_pos rfl⟩
  | planReplayed stored may planned =>
    obtain ⟨rfl, -⟩ := hc.stored stored
    rw [hst]
    exact ⟨stored, rfl, may, planned⟩
  | planned opened allowed answer hw =>
    obtain ⟨rfl, -⟩ := hc.stored opened.stored
    rw [hst, hw]
    exact ⟨put_stored_self .., rfl, opened.may, by simp [Workflow.applyPlanningResult]⟩
  | decisionReplayed closed same decision proposal_ clear =>
    obtain ⟨rfl, -⟩ := hc.stored closed.stored
    rw [hst, queueOn_stored]
    refine ⟨closed.stored, rfl, closed.may, _, _, closed.decided, same, decision, proposal_, ?_⟩
    rintro rfl
    exact (hq _).mpr (queueOn_clear (clear rfl))
  | decided opened inTime clear hw =>
    obtain ⟨rfl, -⟩ := hc.stored opened.stored
    rw [hst, queueOn_stored, hw]
    refine ⟨put_stored_self .., rfl, opened.may, _, _, rfl, rfl, rfl, opened.proposal, ?_⟩
    rintro rfl
    exact (hq _).mpr (queueOn_clear (clear rfl))
  | read => exact hcall.elim
  | redelivered => exact hcall.elim
  | executed => exact hcall.elim
  | resumed => exact hcall.elim

/-- What settles a call does so for good. -/
theorem Settles.later {call : Call} (hc : Consistent env s) (he : Evolve env s s')
    (hw : s.stored w.workflowId = some w) (h : Settles env s w call) :
    ∃ w', w'.workflowId = w.workflowId ∧ s'.stored w.workflowId = some w' ∧
      Settles env s' w' call := by
  obtain ⟨w', hw', hl⟩ := he.stored hw
  have hg := hl.grows (hc.stored hw).2.1
  refine ⟨w', hg.workflowId, hw', ?_⟩
  cases call with
  | create r =>
    obtain ⟨hadm, ⟨hr, hloc⟩, hb⟩ := h
    rw [← hg.workflowId] at hb
    exact ⟨hadm, ⟨hg.request.trans hr, hg.requestedLocale.trans hloc⟩, he.bound hb⟩
  | plan p id _ =>
    obtain ⟨hid, hmay, hp⟩ := h
    refine ⟨hid.trans hg.workflowId.symm, hmay.imp_left hg.ownerId.trans, fun hn => ?_⟩
    obtain ⟨result, hr⟩ := Option.ne_none_iff_exists'.mp hp
    rw [hg.planningResult result hr] at hn
    cases hn
  | decideApproval p id d _ key _ =>
    obtain ⟨hid, hmay, approval, proposal, ha, hkey, hd, hp, hq⟩ := h
    obtain ⟨_, -, ha'⟩ := hg.approvalDecision approval ha
    refine ⟨hid.trans hg.workflowId.symm, ⟨hmay.1, by rw [hg.ownerId]; exact hmay.2⟩, _, proposal,
      ha', hkey, hd, hg.actionProposal _ hp, fun happ => ?_⟩
    rw [hg.workflowId]
    exact he.enqueued (hq happ)
  | get => exact h
  | processNextTask => exact h

/-- A `create` whose key is bound to a matching workflow. -/
theorem replayed_create {r : CreateRequest} {left : State} {outcomes : List String}
    {o : Except Failure Workflow} (hw : s.stored w.workflowId = some w)
    (h : Settles env s w (.create r)) (hx : Exit env clock s (.create r) o left outcomes) :
    o = .ok w ∧ left = s := by
  obtain ⟨hadm, hmatch, hb⟩ := h
  cases hx with
  | createDenied role => exact absurd role hadm.role
  | overlayUnavailable _ overlay => exact absurd hadm.overlay overlay
  | intakeRefused _ _ refused => exact absurd (refused.symm.trans hadm.policy) (by decide)
  | createConflict _ bound stored other =>
    cases hb.symm.trans bound
    cases hw.symm.trans stored
    exact absurd hmatch other
  | createReplayed _ bound stored =>
    cases hb.symm.trans bound
    cases hw.symm.trans stored
    exact ⟨rfl, rfl⟩
  | created _ unbound => cases hb.symm.trans unbound

/-- A `plan` of a planned workflow. -/
theorem replayed_plan {p : Principal} {id correlationId : String} {left : State}
    {outcomes : List String} {o : Except Failure Workflow} (hw : s.stored w.workflowId = some w)
    (h : Settles env s w (.plan p id correlationId))
    (hx : Exit env clock s (.plan p id correlationId) o left outcomes) :
    o = .ok w ∧ left = s := by
  obtain ⟨rfl, hmay, hplanned⟩ := h
  have opened : ∀ {v}, Unplanned s p w.workflowId v → False := by
    rintro v ⟨stored, -, unplanned⟩
    cases hw.symm.trans stored
    exact hplanned unplanned
  cases hx with
  | planHidden hidden => exact absurd hmay (hidden w hw)
  | planReplayed stored =>
    cases hw.symm.trans stored
    exact ⟨rfl, rfl⟩
  | planningRefused h => exact (opened h).elim
  | injectionRejected h => exact (opened h).elim
  | gateRejected h => exact (opened h).elim
  | runtimeFailed h => exact (opened h).elim
  | planned h => exact (opened h).elim

/-- A decision that is taken already, with its task in the queue. -/
theorem replayed_decide {p : Principal} {id reason key correlationId : String} {d : Decision}
    {left : State} {outcomes : List String} {o : Except Failure Workflow}
    (hw : s.stored w.workflowId = some w)
    (h : Settles env s w (.decideApproval p id d reason key correlationId))
    (hx : Exit env clock s (.decideApproval p id d reason key correlationId) o left outcomes) :
    o = .ok w ∧ left = s := by
  obtain ⟨rfl, hmay, approval, proposal, ha, hkey, hd, hp, hq⟩ := h
  have opened : ∀ {v q}, Undecided s p w.workflowId v q → False := by
    rintro v q ⟨stored, -, undecided, -, -⟩
    cases hw.symm.trans stored
    cases ha.symm.trans undecided
  have closed : ∀ {v a}, DecidedBefore s p w.workflowId v a → v = w ∧ a = approval := by
    rintro v a ⟨stored, -, decided⟩
    cases hw.symm.trans stored
    cases ha.symm.trans decided
    exact ⟨rfl, rfl⟩
  cases hx with
  | decideDenied role => exact absurd role hmay.1
  | decideMissing _ missing => cases hw.symm.trans missing
  | selfApproval _ stored own =>
    cases hw.symm.trans stored
    exact absurd own hmay.2
  | decidedByOther h other =>
    obtain ⟨rfl, rfl⟩ := closed h
    exact absurd hkey other
  | decidedOtherwise h _ other =>
    obtain ⟨rfl, rfl⟩ := closed h
    exact absurd hd other
  | decisionReplayed h same decision proposal_ clear =>
    obtain ⟨rfl, rfl⟩ := closed h
    cases hp.symm.trans proposal_
    refine ⟨rfl, ?_⟩
    cases d with
    | rejected => rfl
    | approved =>
      obtain ⟨t, ht, hdig⟩ := hq rfl
      exact queueOn_same ht hdig .approved
  | replayMisbound h same decision proposal_ misbound =>
    obtain ⟨rfl, rfl⟩ := closed h
    cases hp.symm.trans proposal_
    obtain ⟨t, ht, hdig⟩ := hq rfl
    obtain ⟨t', ht', hne⟩ := misbound
    cases ht.symm.trans ht'
    exact absurd hdig hne
  | notPending stored _ undecided =>
    cases hw.symm.trans stored
    cases ha.symm.trans undecided
  | proposalExpired h => exact (opened h).elim
  | decided h => exact (opened h).elim
  | decidedMisbound h => exact (opened h).elim

/-- A settled call answers from the stores. -/
theorem replayed_of_settles {call : Call} (hw : s.stored w.workflowId = some w)
    (h : Settles env s w call) {r : Except Failure Workflow × State}
    (he : Ends env clock s call r) : r.1 = .ok w ∧ SameStores s r.2 := by
  obtain ⟨left, outcomes, hx, hs, -⟩ := he
  have hr : r.1 = .ok w ∧ left = s := by
    cases call with
    | create => exact replayed_create hw h hx
    | plan => exact replayed_plan hw h hx
    | decideApproval => exact replayed_decide hw h hx
    | get => exact h.elim
    | processNextTask => exact h.elim
  exact ⟨hr.1, hr.2 ▸ hs⟩

/-- **A verbatim retry is safe at any later time.** When a `create`, `plan` or
`decide_approval` call of a sequential run has returned, the same call returns
the same workflow, as it is stored by then, in every later state of the run, and
writes to none of the stores. -/
theorem retry_replayed (hf : Function.Injective env.idFactory) (h : Sequential env n s)
    {call : Call} (hcall : call.Replays) (hok : (answer env n s call clock).1 = .ok w)
    (hs : (system env).Serial (n + 1) (answer env n s call clock).2 n' s') :
    Replayed w s' (answer env n' s' call clock') := by
  have h1 := h.after call clock
  obtain ⟨hw, hset⟩ := settles_of_ok (h.consistent hf) hcall (h.ends hf call clock) hok
  obtain ⟨w', hid, hw', hset'⟩ := hset.later (h1.consistent hf) (h1.evolve hf hs) hw
  rw [← hid] at hw'
  obtain ⟨hr, hsame⟩ := replayed_of_settles hw' hset' ((h1.serial hs).ends hf call clock')
  exact ⟨⟨w', hr, hid, hid ▸ hw'⟩, hsame⟩

/-- The approval of the examples is sent again when its workflow is completed. -/
theorem retry_replayed_completed : ∃ w, w.status = .approved ∧
    (answer sampleEnv 2 (serve sampleEnv 0 { now := 0, utc := 0 } (sampleCalls.take 2))
      (.decideApproval localReviewer "w" .approved "reviewed" "key-2" "c-3") fun _ => (3, 3)).1 =
        .ok w ∧
    Replayed w (serve sampleEnv 0 { now := 0, utc := 0 } sampleCalls)
      (answer sampleEnv 4 (serve sampleEnv 0 { now := 0, utc := 0 } sampleCalls)
        (.decideApproval localReviewer "w" .approved "reviewed" "key-2" "c-3")
        fun _ => (5, 5)) := by
  have h : (answer sampleEnv 2 (serve sampleEnv 0 { now := 0, utc := 0 } (sampleCalls.take 2))
      (.decideApproval localReviewer "w" .approved "reviewed" "key-2" "c-3")
        fun _ => (3, 3)).1.toOption.map (fun w => decide (w.status = .approved)) = some true := by
    decide
  obtain ⟨w, hw, hs⟩ := Option.map_eq_some_iff.mp h
  have hok : (answer sampleEnv 2 (serve sampleEnv 0 { now := 0, utc := 0 } (sampleCalls.take 2))
      (.decideApproval localReviewer "w" .approved "reviewed" "key-2" "c-3") fun _ => (3, 3)).1 =
        .ok w := by
    cases hr : (answer sampleEnv 2 (serve sampleEnv 0 { now := 0, utc := 0 } (sampleCalls.take 2))
      (.decideApproval localReviewer "w" .approved "reviewed" "key-2" "c-3") fun _ => (3, 3)).1 with
    | error e => rw [hr] at hw; cases hw
    | ok v => rw [hr] at hw; cases hw; rfl
  refine ⟨w, of_decide_eq_true hs, hok, ?_⟩
  exact retry_replayed sampleId_injective (sequential_serve sampleEnv 0 0 (sampleCalls.take 2))
    (by exact trivial) hok (serial_serve sampleEnv (sampleCalls.drop 3) 3 _)

end AgenticDelivery.Api
