import AgenticDelivery.Api.Drain

/-! # A request that goes through

What the service is for: whatever has happened before, a harmless request of an
authorised client that is planned, approved by somebody else in time and delivered in
time ends with its workflow completed. -/
namespace AgenticDelivery.Api
open AgenticDelivery.Atomic AgenticDelivery.Data AgenticDelivery.Governance AgenticDelivery.Runtime

/-- The calls that take a request to its end, one after the other, with what their
clients choose and when they are made. -/
structure Course where
  request : CreateRequest
  planner : Principal
  reviewer : Principal
  operator : Principal
  reason : String
  key : String
  correlationIds : Nat → String
  /-- what the clock shows at each operation of each call -/
  clocks : Nat → Nat → Datetime × Datetime

namespace Course
variable (course : Course) (env : Environment) (n : Nat) (s : State)

/-- The identifier of the new workflow. -/
def workflowId : String := env.idFactory s.issued.length

/-- The state after the request is created. -/
def created : State := (answer env n s (.create course.request) (course.clocks 0)).2

/-- The state after the workflow is planned. -/
def planned : State :=
  (answer env (n + 1) (course.created env n s)
    (.plan course.planner (workflowId env s) (course.correlationIds 1)) (course.clocks 1)).2

/-- The state after the proposal is approved. -/
def approved : State :=
  (answer env (n + 2) (course.planned env n s)
    (.decideApproval course.reviewer (workflowId env s) .approved course.reason course.key
      (course.correlationIds 2)) (course.clocks 2)).2

/-- The state after as many deliveries as there are tasks that wait. -/
def delivered : State :=
  deliveries env course.operator (course.approved env n s).taskQueue.pending.length
    (fun j => course.correlationIds (j + 3)) (fun j => course.clocks (j + 3)) (n + 3)
    (course.approved env n s)

/-- When the proposal expires. -/
def proposalEnd : Datetime := (course.clocks 1 4).1 + minutes 30

/-- When the approval expires. -/
def approvalEnd : Datetime := min course.proposalEnd ((course.clocks 2 1).1 + minutes 15)

/-- The clients may do what they do, and do it in time. -/
structure Proper (u : Unicode) : Prop where
  admitted : course.request.Admitted env
  unbound : s.bound course.request.principal.subject course.request.idempotencyKey = none
  /-- The truncated hash of the new identifier does not collide. -/
  distinct : ∀ id w, s.stored id = some w → taskIdOf id ≠ taskIdOf (workflowId env s)
  safe : Safe u (Data.normalizeRequest course.request.request)
  planner : course.request.principal.subject = course.planner.subject ∨
    .administrator ∈ course.planner.roles
  reviewer : course.reviewer.roles ∩ {.reviewer, .administrator} ≠ ∅
  other : course.request.principal.subject ≠ course.reviewer.subject
  operator : course.operator.MayProcess
  decided : (course.clocks 2 1).1 ≤ course.proposalEnd
  delivered : ∀ j, (course.clocks (j + 3) 2).1 ≤ course.approvalEnd

variable {course env n s} {u : Unicode} {mode : EnforcementMode} {s' : State}

/-- From `s` to `s'` only the workflow with the identifier changes. -/
def Only (id : String) (s s' : State) : Prop := ∀ id', id' ≠ id → s'.stored id' = s.stored id'

/-! ## The calls -/

theorem created_spec (hf : Function.Injective env.idFactory) (h : Reached env n s)
    (hok : course.Proper env s u) :
    (∃ w, (answer env n s (.create course.request) (course.clocks 0)).1 = .ok w ∧
      (course.created env n s).stored (workflowId env s) = some w ∧
      w.workflowId = workflowId env s ∧ w.correlationId = course.request.correlationId ∧
      w.ownerId = course.request.principal.subject ∧
      w.request = Data.normalizeRequest course.request.request ∧ w.planningResult = none ∧
      w.approvalDecision = none) ∧
    (course.created env n s).taskQueue = s.taskQueue ∧
    Only (workflowId env s) s (course.created env n s) := by
  obtain ⟨left, outcomes, hx, ⟨hr, hq, -⟩, -⟩ :=
    @Consistent.ends env n (course.clocks 0) s (h.consistent hf) (.create course.request)
  change (course.created env n s).repository = _ at hr
  change (course.created env n s).taskQueue = _ at hq
  generalize ((system env).alone n (.create course.request) s (course.clocks 0)).1 = o at hx
  cases hx with
  | createDenied role => exact absurd role hok.admitted.role
  | overlayUnavailable _ overlay => exact absurd hok.admitted.overlay overlay
  | intakeRefused _ _ refused =>
    exact absurd (refused.symm.trans hok.admitted.policy) (by decide)
  | createConflict _ bound => cases hok.unbound.symm.trans bound
  | createReplayed _ bound => cases hok.unbound.symm.trans bound
  | created =>
    refine ⟨⟨course.request.received env (workflowId env s) (course.clocks 0 4).2, rfl, ?_, rfl,
      rfl, rfl, rfl, rfl, rfl⟩, hq, fun id hne => ?_⟩
    · rw [State.stored, hr]
      exact insert_stored_self ..
    · rw [State.stored, hr]
      exact (insert_stored ..).trans (if_neg hne)

/-- The default composition has a plan for a safe request. -/
theorem planned_ok (hp : DefaultPorts u mode env) {planningInput : PlanningInput}
    (hsafe : Safe u planningInput.request) {m : Nat} {e : RuntimeError} :
    env.runtime m planningInput ≠ .error e := by
  intro he
  rcases hp.runtime_cases m planningInput with ⟨hno, -⟩ | ⟨-, result, hok⟩
  · exact hno hsafe
  · cases he.symm.trans hok

theorem planned_spec (hf : Function.Injective env.idFactory) (hp : DefaultPorts u mode env)
    (h : Reached env n s) (hok : course.Proper env s u) :
    (∃ w proposal, (answer env (n + 1) (course.created env n s)
        (.plan course.planner (workflowId env s) (course.correlationIds 1)) (course.clocks 1)).1 =
          .ok w ∧
      (course.planned env n s).stored (workflowId env s) = some w ∧
      w.status = .awaitingApproval ∧ w.approvalDecision = none ∧
      w.ownerId = course.request.principal.subject ∧
      w.actionProposal = some proposal ∧ proposal.expiresAt = course.proposalEnd) ∧
    (course.planned env n s).taskQueue = s.taskQueue ∧
    Only (workflowId env s) s (course.planned env n s) := by
  obtain ⟨⟨w, -, hw, hid, -, howner, hreq, hplan, hnone⟩, hq₁, honly⟩ := created_spec hf h hok
  have h₁ : Reached env (n + 1) (course.created env n s) := h.after _ _
  obtain ⟨left, outcomes, hx, ⟨hr, hq, -⟩, -⟩ :=
    @Consistent.ends env (n + 1) (course.clocks 1) _ (h₁.consistent hf)
      (.plan course.planner (workflowId env s) (course.correlationIds 1))
  change (course.planned env n s).repository = _ at hr
  change (course.planned env n s).taskQueue = _ at hq
  generalize ((system env).alone (n + 1) _ (course.created env n s) (course.clocks 1)).1 = o at hx
  have hmay : course.planner.MayPlan w := hok.planner.imp howner.trans id
  -- the workflow that is planned is the new one
  have hopen : ∀ {w'}, (course.created env n s).stored (workflowId env s) = some w' → w' = w :=
    fun hw' => Option.some.inj (hw'.symm.trans hw)
  have hsafe : ∀ {w'} cid, (course.created env n s).stored (workflowId env s) = some w' →
      Safe u (WorkflowService.planningInput w' cid).request := by
    intro w' cid hw'
    rw [hopen hw', WorkflowService.planningInput, hreq]
    exact hok.safe
  cases hx with
  | planHidden hidden => exact absurd hmay (hidden w hw)
  | planReplayed stored _ planned => exact absurd (hopen stored ▸ hplan) planned
  | planningRefused _ refused =>
    exact absurd (refused.symm.trans (hp.planning_allowed _)) (by decide)
  | injectionRejected opened _ answer => exact absurd answer (planned_ok hp (hsafe _ opened.stored))
  | gateRejected opened _ answer => exact absurd answer (planned_ok hp (hsafe _ opened.stored))
  | runtimeFailed opened _ answer => exact absurd answer (planned_ok hp (hsafe _ opened.stored))
  | @planned _ _ _ w₁ result opened _ _ w' stored =>
    cases hopen opened.stored
    have hid' : w'.workflowId = workflowId env s := by rw [stored]; exact hid
    refine ⟨⟨w', _, rfl, ?_, by rw [stored]; rfl, by rw [stored]; exact hnone,
      by rw [stored]; exact howner, by rw [stored]; rfl, rfl⟩, hq.trans hq₁, fun id hne => ?_⟩
    · rw [State.stored, hr, ← hid']
      exact put_stored_self ..
    · refine Eq.trans ?_ (honly id hne)
      rw [State.stored, hr]
      exact (put_stored ..).trans (if_neg (by rw [hid']; exact hne))

/-- The queue knows nothing of the new workflow. -/
theorem unused (hc : Consistent env s) (hok : course.Proper env s u) :
    s.taskQueue.tasks.get? (taskIdOf (workflowId env s)) = none ∧
      taskIdOf (workflowId env s) ∉ s.taskQueue.completed := by
  constructor
  · cases ht : s.taskQueue.tasks.get? (taskIdOf (workflowId env s)) with
    | none => rfl
    | some t =>
      obtain ⟨hk, w, hw, htw⟩ := hc.queued ht
      refine absurd ?_ (hok.distinct _ w hw)
      rw [← hk, htw.taskId, htw.workflowId]
  · intro hm
    obtain ⟨id, w, hk, hw, -⟩ := hc.retired hm
    exact hok.distinct id w hw hk.symm

/-- A task that the queue does not know is put behind the others. -/
theorem enqueue_unused {task : ExecutionTask} (ht : s.taskQueue.tasks.get? task.taskId = none)
    (hk : task.taskId ∉ s.taskQueue.completed) :
    (s.taskQueue.enqueue task).2.tasks = s.taskQueue.tasks.set task.taskId task ∧
      (s.taskQueue.enqueue task).2.pending = s.taskQueue.pending ++ [task.taskId] := by
  rw [enqueue_new ht]
  refine ⟨rfl, ?_⟩
  rw [InMemoryTaskQueue.pending, InMemoryTaskQueue.pending, List.filter_append,
    List.filter_cons_of_pos (by simpa using hk)]
  rfl

/-- The decision is recorded, and the task of the workflow waits behind the others. -/
theorem approved_spec (hf : Function.Injective env.idFactory) (hp : DefaultPorts u mode env)
    (h : Reached env n s) (hok : course.Proper env s u) :
    ∃ w approval task, (answer env (n + 2) (course.planned env n s)
        (.decideApproval course.reviewer (workflowId env s) .approved course.reason course.key
          (course.correlationIds 2)) (course.clocks 2)).1 = .ok w ∧
      (course.approved env n s).stored (workflowId env s) = some w ∧
      w.status = .approved ∧ w.approvalDecision = some approval ∧
      approval.expiresAt = course.approvalEnd ∧ task.workflowId = workflowId env s ∧
      (course.approved env n s).taskQueue.tasks =
        s.taskQueue.tasks.set (taskIdOf (workflowId env s)) task ∧
      (course.approved env n s).taskQueue.pending =
        s.taskQueue.pending ++ [taskIdOf (workflowId env s)] ∧
      Only (workflowId env s) s (course.approved env n s) := by
  obtain ⟨⟨w, proposal, -, hw, hs, hnone, howner, hprop, hend⟩, hq₂, honly⟩ :=
    planned_spec hf hp h hok
  have h₂ : Reached env (n + 2) (course.planned env n s) := (h.after _ _).after _ _
  have hc := h₂.consistent hf
  have hid := (hc.stored hw).1
  obtain ⟨habsent, hopen⟩ := unused (h.consistent hf) hok
  obtain ⟨left, outcomes, hx, ⟨hr, hq, -⟩, -⟩ :=
    @Consistent.ends env (n + 2) (course.clocks 2) _ hc
      (.decideApproval course.reviewer (workflowId env s) .approved course.reason course.key
        (course.correlationIds 2))
  change (course.approved env n s).repository = _ at hr
  change (course.approved env n s).taskQueue = _ at hq
  generalize ((system env).alone (n + 2) _ (course.planned env n s) (course.clocks 2)).1 = o at hx
  have hthis : ∀ {w'}, (course.planned env n s).stored (workflowId env s) = some w' → w' = w :=
    fun hw' => Option.some.inj (hw'.symm.trans hw)
  have undecided : ∀ {p w' a},
      ¬DecidedBefore (course.planned env n s) p (workflowId env s) w' a := by
    intro p w' a closed
    cases hnone.symm.trans (hthis closed.stored ▸ closed.decided)
  cases hx with
  | decideDenied role => exact absurd role hok.reviewer
  | decideMissing _ missing => cases missing.symm.trans hw
  | selfApproval _ stored own =>
    rw [hthis stored, howner] at own
    exact absurd own hok.other
  | decidedByOther closed => exact absurd closed undecided
  | decidedOtherwise closed => exact absurd closed undecided
  | decisionReplayed closed => exact absurd closed undecided
  | replayMisbound closed => exact absurd closed undecided
  | notPending stored _ _ status => exact absurd (hthis stored ▸ hs) status
  | proposalExpired opened late =>
    cases hthis opened.stored
    cases hprop.symm.trans opened.proposal
    exact absurd late (not_lt.mpr (hend ▸ hok.decided))
  | decidedMisbound opened inTime misbound =>
    cases hthis opened.stored
    obtain ⟨t, ht, -⟩ := misbound
    rw [hq₂] at ht
    cases habsent.symm.trans (hid ▸ ht)
  | @decided _ _ _ _ _ _ _ proposal' opened inTime clear w' stored =>
    cases hthis opened.stored
    cases hprop.symm.trans opened.proposal
    have hid' : w'.workflowId = workflowId env s := by rw [stored]; exact hid
    change _ = ((course.planned env n s).taskQueue.enqueue _).2 at hq
    rw [queueOn_repository] at hr
    rw [hq₂, hid] at hq
    obtain ⟨htasks, hpend⟩ := @enqueue_unused _
      (createExecutionTask (workflowId env s) proposal.proposalDigest) habsent hopen
    rw [← hq] at htasks hpend
    refine ⟨w', _, _, rfl, ?_, by rw [stored]; rfl, by rw [stored]; rfl, ?_, rfl, htasks, hpend,
      fun id hne => ?_⟩
    · rw [State.stored, hr, ← hid']
      exact put_stored_self ..
    · rw [approvalEnd, ← hend]
      rfl
    · refine Eq.trans ?_ (honly id hne)
      rw [State.stored, hr]
      exact (put_stored ..).trans (if_neg (by rw [hid']; exact hne))

/-- A delivery of approved work, in time, returns the completed workflow. -/
theorem delivery_completed {k : String} {rest : List String} {task : ExecutionTask} {w : Workflow}
    {approval : ApprovalDecision} {p : Principal} (clock : Nat → Datetime × Datetime)
    (hf : Function.Injective env.idFactory) (h : Reached env n s) (hmay : p.MayProcess)
    (hallow : ∀ context, (env.policy (executionContext context)).executionAllowed = true)
    (hpend : s.taskQueue.pending = k :: rest) (ht : s.taskQueue.tasks.get? k = some task)
    (hw : s.stored task.workflowId = some w) (hs : w.status = .approved)
    (ha : w.approvalDecision = some approval) (hin : (clock 2).1 ≤ approval.expiresAt)
    (correlationId : String) : ∃ w',
      (answer env n s (.processNextTask p correlationId) clock).1 = .ok w' ∧
      (answer env n s (.processNextTask p correlationId) clock).2.stored task.workflowId =
        some w' ∧ w'.status = .completed := by
  have hc := h.consistent hf
  obtain ⟨left, outcomes, hx, ⟨hr, -⟩, -⟩ :=
    @Consistent.ends env n clock s hc (.processNextTask p correlationId)
  change (answer env n s (.processNextTask p correlationId) clock).2.repository = _ at hr
  generalize ((system env).alone n (.processNextTask p correlationId) s clock).1 = o at hx
  -- the delivery is that of the task
  have this : ∀ {task' w'}, NextTask s p task' w' →
      w' = w ∧ w.workflowId = task.workflowId := by
    intro task' w' next
    obtain ⟨t, -, ht', -, hw', hid⟩ := next.first hc hpend
    cases ht.symm.trans ht'
    cases hw.symm.trans hw'
    exact ⟨rfl, hid⟩
  cases hx with
  | processDenied role => exact absurd hmay role
  | nothingPending may empty => rw [empty] at hpend; cases hpend
  | redelivered next status | resumed next status =>
    rw [(this next).1, hs] at status
    cases status
  | deliveredStale next status =>
    rw [(this next).1, hs] at status
    exact absurd status (by decide)
  | approvalExpired next status approval_ late =>
    cases (this next).1
    cases ha.symm.trans approval_
    exact absurd late (not_lt.mpr hin)
  | executionRefused _ _ _ _ refused => exact absurd (refused.symm.trans (hallow _)) (by decide)
  | executed next status approval_ inTime allowed proposal_ started ticket completed =>
    obtain ⟨rfl, hid⟩ := this next
    have hid' : _ = task.workflowId :=
      (completeExecution_workflowId completed).trans
        ((congrArg Workflow.workflowId started).trans hid)
    refine ⟨_, rfl, ?_, completeExecution_status completed⟩
    rw [State.stored, hr, ← hid']
    exact put_stored_self ..

/-! ## The end -/

/-- **A proper request goes through.** After any run, whatever calls have stopped half way,
a request that the policy admits, with a new idempotency key and without an
instruction-override pattern, that its owner or an administrator has planned, that a
reviewer other than the owner approves before the proposal expires and an operator
delivers, behind all the tasks that wait, before the approval expires, ends completed,
with its ticket on record; and the queue is empty. -/
theorem completes (hf : Function.Injective env.idFactory) (hp : DefaultPorts u mode env)
    (h : Reached env n s) (hclean : ∀ k ∈ s.taskQueue.pending, ¬Poisoned s k)
    (hok : course.Proper env s u) :
    (course.delivered env n s).taskQueue.pending = [] ∧
    ∃ w r, (course.delivered env n s).stored (workflowId env s) = some w ∧
      w.status = .completed ∧ w.executionResult = some r ∧
      (course.delivered env n s).record r.idempotencyKey = some r := by
  have hc := h.consistent hf
  obtain ⟨w, approval, task, -, hw, hs, happ, hend, htid, htasks, hpend, honly⟩ :=
    approved_spec hf hp h hok
  have h₃ : Reached env (n + 3) (course.approved env n s) := ((h.after _ _).after _ _).after _ _
  obtain ⟨habsent, -⟩ := unused hc hok
  have htask : (course.approved env n s).taskQueue.tasks.get? (taskIdOf (workflowId env s)) =
      some task := by
    rw [htasks, Dict.get?_set_self]
  -- no task that waits belongs to an expired workflow
  have hclean₃ : ∀ k ∈ (course.approved env n s).taskQueue.pending,
      ¬Poisoned (course.approved env n s) k := by
    rintro k hk ⟨t, v, ht, hv, he⟩
    by_cases hkid : k = taskIdOf (workflowId env s)
    · rw [hkid, htask] at ht
      cases ht
      rw [htid, hw] at hv
      cases hv
      exact absurd (hs.symm.trans he) (by decide)
    · rw [htasks, Dict.get?_set_ne _ hkid] at ht
      obtain ⟨-, x, hx, -⟩ := hc.queued ht
      have hne : t.workflowId ≠ workflowId env s := by
        intro heq
        cases (hc.fresh hf).symm.trans (heq ▸ hx)
      rw [honly _ hne] at hv
      rw [hpend, List.mem_append, List.mem_singleton] at hk
      exact hclean k (hk.resolve_right hkid) ⟨t, v, ht, hv, he⟩
  obtain ⟨hempty, hres⟩ := drained hf hok.operator hp.execution_allowed _
    (fun j => course.correlationIds (j + 3)) (fun j => course.clocks (j + 3)) _ _ h₃ rfl hclean₃
  refine ⟨hempty, ?_⟩
  obtain ⟨w', hw', hres⟩ := hres s.taskQueue.pending.length _ task w
    (by rw [hpend, List.getElem?_concat_length]) htask (by rw [htid]; exact hw)
  rw [htid] at hw'
  have hdone : w'.status = .completed := by
    refine hres.inTime ?_
    rintro ⟨-, approval', ha, hlate⟩
    cases happ.symm.trans ha
    exact absurd hlate (not_lt.mpr (hend ▸ hok.delivered _))
  have hc' : Consistent env (course.delivered env n s) :=
    (h₃.serial (serial_deliveries env _ _ _ _ _ _)).consistent hf
  obtain ⟨r, hr, -⟩ := filter_records_of_completed hc' hw' hdone
  exact ⟨w', r, hw', hdone, hr, hc'.ticketed hw' hr⟩

/-! ## The replies -/

/-- The next delivery is that of the new workflow, when no other task waits. -/
theorem executed_spec (hf : Function.Injective env.idFactory) (hp : DefaultPorts u mode env)
    (h : Reached env n s) (hok : course.Proper env s u) (hidle : s.taskQueue.pending = []) :
    ∃ w, (answer env (n + 3) (course.approved env n s)
        (.processNextTask course.operator (course.correlationIds 3)) (course.clocks 3)).1 = .ok w ∧
      (answer env (n + 3) (course.approved env n s)
        (.processNextTask course.operator (course.correlationIds 3)) (course.clocks 3)).2.stored
          (workflowId env s) = some w ∧ w.status = .completed := by
  obtain ⟨w, approval, task, -, hw, hs, happ, hend, htid, htasks, hpend, -⟩ :=
    approved_spec hf hp h hok
  have h₃ : Reached env (n + 3) (course.approved env n s) := ((h.after _ _).after _ _).after _ _
  have htask : (course.approved env n s).taskQueue.tasks.get? (taskIdOf (workflowId env s)) =
      some task := by
    rw [htasks, Dict.get?_set_self]
  rw [hidle, List.nil_append] at hpend
  rw [← htid] at hw
  have hdone := delivery_completed (course.clocks 3) hf h₃ hok.operator
    hp.execution_allowed hpend htask hw hs happ (hend ▸ hok.delivered 0) (course.correlationIds 3)
  rw [htid] at hdone
  exact hdone

/-- `w` is the new workflow, as it is stored in `s'`. -/
structure New (course : Course) (env : Environment) (s s' : State) (w : Workflow) : Prop where
  stored : s'.stored (Course.workflowId env s) = some w
  life : Lifecycle env w
  workflowId : w.workflowId = Course.workflowId env s
  correlationId : w.correlationId = course.request.correlationId
  ownerId : w.ownerId = course.request.principal.subject
  request : w.request = Data.normalizeRequest course.request.request

/-- It stays the same workflow through the next call. -/
theorem New.after {s' s'' : State} {w w' : Workflow} {call : Call} {n' : Nat}
    {clock : Nat → Datetime × Datetime} {o : Except Failure Workflow}
    (hf : Function.Injective env.idFactory) (h : Reached env n' s') (hnew : course.New env s s' w)
    (hs'' : answer env n' s' call clock = (o, s''))
    (hw' : s''.stored (Course.workflowId env s) = some w') : course.New env s s'' w' := by
  obtain rfl : (answer env n' s' call clock).2 = s'' := congrArg Prod.snd hs''
  obtain ⟨v, hv, hl⟩ := (h.evolve hf (.call .refl call clock)).stored hnew.stored
  cases hv.symm.trans hw'
  have hg := hl.grows hnew.life
  exact ⟨hw', (((h.after call clock).consistent hf).stored hw').2.1,
    hg.workflowId.trans hnew.workflowId, hg.correlationId.trans hnew.correlationId,
    hg.ownerId.trans hnew.ownerId, hg.request.trans hnew.request⟩

/-- The replies to the four calls, when no other task waits. -/
structure Replies (course : Course) (env : Environment) (n : Nat) (s s' : State)
    (w₀ w₁ w₂ w₃ : Workflow) : Prop where
  created : answer env n s (.create course.request) (course.clocks 0) =
    (.ok w₀, course.created env n s)
  planned : answer env (n + 1) (course.created env n s)
    (.plan course.planner (workflowId env s) (course.correlationIds 1)) (course.clocks 1) =
      (.ok w₁, course.planned env n s)
  approved : answer env (n + 2) (course.planned env n s)
    (.decideApproval course.reviewer (workflowId env s) .approved course.reason course.key
      (course.correlationIds 2)) (course.clocks 2) = (.ok w₂, course.approved env n s)
  executed : answer env (n + 3) (course.approved env n s)
    (.processNextTask course.operator (course.correlationIds 3)) (course.clocks 3) = (.ok w₃, s')
  received : course.New env s (course.created env n s) w₀
  awaiting : course.New env s (course.planned env n s) w₁ ∧ w₁.status = .awaitingApproval
  decided : course.New env s (course.approved env n s) w₂ ∧ w₂.status = .approved
  completed : course.New env s s' w₃ ∧ w₃.status = .completed

theorem replies (hf : Function.Injective env.idFactory) (hp : DefaultPorts u mode env)
    (h : Reached env n s) (hok : course.Proper env s u) (hidle : s.taskQueue.pending = []) :
    ∃ s' w₀ w₁ w₂ w₃, course.Replies env n s s' w₀ w₁ w₂ w₃ := by
  obtain ⟨⟨w₀, ho₀, hw₀, hid, hcid, howner, hreq, -⟩, -⟩ := created_spec hf h hok
  obtain ⟨⟨w₁, -, ho₁, hw₁, hs₁, -⟩, -⟩ := planned_spec hf hp h hok
  obtain ⟨w₂, -, -, ho₂, hw₂, hs₂, -⟩ := approved_spec hf hp h hok
  obtain ⟨w₃, ho₃, hw₃, hs₃⟩ := executed_spec hf hp h hok hidle
  have h₁ : Reached env (n + 1) (course.created env n s) := h.after _ _
  have h₂ : Reached env (n + 2) (course.planned env n s) := h₁.after _ _
  have h₃ : Reached env (n + 3) (course.approved env n s) := h₂.after _ _
  have new₀ : course.New env s (course.created env n s) w₀ :=
    ⟨hw₀, ((h₁.consistent hf).stored hw₀).2.1, hid, hcid, howner, hreq⟩
  have new₁ := new₀.after hf h₁ (Prod.ext ho₁ rfl) hw₁
  have new₂ := new₁.after hf h₂ (Prod.ext ho₂ rfl) hw₂
  have new₃ := new₂.after hf h₃ (Prod.ext ho₃ rfl) hw₃
  exact ⟨_, w₀, w₁, w₂, w₃, Prod.ext ho₀ rfl, Prod.ext ho₁ rfl, Prod.ext ho₂ rfl,
    Prod.ext ho₃ rfl, new₀, ⟨new₁, hs₁⟩, ⟨new₂, hs₂⟩, new₃, hs₃⟩

end Course

/-! ### A request after a stopped one -/

/-- A client that stops once it has an identifier. -/
def stoppedCreate : List (Move Call (Datetime × Datetime)) :=
  moves 0 (.create { sampleRequest with idempotencyKey := "key-0" }) 5

/-- The request of the examples, all at one time. -/
def sampleCourse : Course where
  request := sampleRequest
  planner := localRequester
  reviewer := localReviewer
  operator := localOperator
  reason := "reviewed"
  key := "key-2"
  correlationIds _ := "c-2"
  clocks _ _ := (0, 0)

theorem completes_sampleCourse : ∃ w r,
    (sampleCourse.delivered localEnv 1
      ((system localEnv).play (initial 0 0) stoppedCreate).state).stored "ww" = some w ∧
    w.status = .completed ∧ w.executionResult = some r := by
  have hlen : ((system localEnv).play (initial 0 0) stoppedCreate).threads.length = 1 := by
    decide +kernel
  have hpend : ((system localEnv).play (initial 0 0)
      stoppedCreate).state.taskQueue.pending = [] := by decide +kernel
  have hfree : ((system localEnv).play (initial 0 0)
      stoppedCreate).state.repository.workflows.entries = [] := by decide +kernel
  have hid : Course.workflowId localEnv ((system localEnv).play (initial 0 0) stoppedCreate).state =
      "ww" := by decide +kernel
  have hok : sampleCourse.Proper localEnv
      ((system localEnv).play (initial 0 0) stoppedCreate).state asciiUnicode :=
    { admitted := ⟨by decide, by decide, by decide +kernel⟩
      unbound := by decide +kernel
      distinct := fun id w hw => by
        rw [State.stored, Dict.get?, hfree] at hw
        cases hw
      safe := by decide
      planner := .inl rfl
      reviewer := by decide
      other := by decide
      operator := by unfold Principal.MayProcess; decide
      decided := by decide
      delivered := fun _ => (by decide : (0 : Int) ≤ sampleCourse.approvalEnd) }
  obtain ⟨-, w, r, hw, hs, hr, -⟩ := Course.completes sampleId_injective localEnv_ports
    ⟨_, reachable_play localEnv 0 0 stoppedCreate, rfl, hlen⟩ (by simp [hpend]) hok
  exact ⟨w, r, hid ▸ hw, hs, hr⟩

end AgenticDelivery.Api
