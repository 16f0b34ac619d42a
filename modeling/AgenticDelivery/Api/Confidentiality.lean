import AgenticDelivery.Api.Sequential
import Mathlib.Logic.Function.Basic

/-! # What a requester sees

The workflows of one owner and the owner's idempotency keys, as a store of its
own. A call of a requester reads and writes this store and nothing else, so
its answer is a function of it, whatever the service holds besides. -/
namespace AgenticDelivery.Api
open AgenticDelivery.Atomic AgenticDelivery.Data AgenticDelivery.Governance AgenticDelivery.Runtime

/-! ## The store of one owner -/

/-- The workflows of an owner by their ids, and the ids the owner's keys are bound to. -/
structure View where
  workflow : String → Option Workflow
  key : String → Option String

/-- The view of a principal on the stores. -/
def view (p : Principal) (s : State) : View where
  workflow id := (s.stored id).filter fun w => w.ownerId = p.subject
  key := s.bound p.subject

instance (r : CreateRequest) (env : Environment) (w : Workflow) : Decidable (r.Matches env w) :=
  inferInstanceAs (Decidable (_ ∧ _))

/-- The error for a workflow that is absent or belongs to somebody else. -/
def hiddenWorkflow : Failure :=
  .application .workflowNotFound "The workflow does not exist or is not accessible."

namespace View

def put (v : View) (w : Workflow) : View :=
  { v with workflow := Function.update v.workflow w.workflowId (some w) }

def insert (v : View) (w : Workflow) (key : String) : View where
  workflow := Function.update v.workflow w.workflowId (some w)
  key := Function.update v.key key (some w.workflowId)

variable (env : Environment) (agent : DeterministicAgentRuntime) (v : View)

/-- `create`, by the owner, with the id and the time it draws. -/
def create (r : CreateRequest) (id : String) (now : Datetime) : Except Failure Workflow × View :=
  if r.overlayIds.toFinset ≠ {"common-us-baseline"} then
    (.error (.application .complianceOverlayUnavailable
      "Only the reviewed common-us-baseline overlay is active in this phase."), v)
  else if (r.decision env).executionAllowed = false then
    (.error (refusal (r.decision env)), v)
  else
  match v.key r.idempotencyKey with
  | none => (.ok (r.received env id now), v.insert (r.received env id now) r.idempotencyKey)
  | some existingId =>
    match v.workflow existingId with
    | none => (.error (.keyError existingId), v)
    | some w => if r.Matches env w then (.ok w, v) else (.error keyConflict, v)

def get (id : String) : Except Failure Workflow :=
  match v.workflow id with
  | none => .error hiddenWorkflow
  | some w => .ok w

/-- `plan`, by the owner, with the times it reads. -/
def plan (id correlationId : String) (now utc : Datetime) : Except Failure Workflow × View :=
  match v.workflow id with
  | none => (.error hiddenWorkflow, v)
  | some w =>
  if w.planningResult ≠ none then (.ok w, v)
  else
  let decision := env.policy (planningContext w.processingContext)
  if decision.executionAllowed = false then (.error (refusal decision), v)
  else
  let planningInput := WorkflowService.planningInput w correlationId
  match agent.plan { planningInput, completedStates := [] } planningInput with
  | .error (.promptInjectionBlocked message) =>
    (.error (.application .promptInjectionRejected message), v)
  | .error (.evaluationGateBlocked _) =>
    (.error (.application .evaluationGateRejected
      "The deterministic evaluation gate did not pass."), v)
  | .error (.other message) => (.error (.runtime message), v)
  | .ok result =>
    let planned := w.applyPlanningResult result decision
      (createToolProposal env.ticketSchema w.workflowId result now) utc
    (.ok planned, v.put planned)

/-- Any call of a requester, which may neither decide nor process. -/
def answer (id : String) (clock : Nat → Datetime × Datetime) :
    Call → Except Failure Workflow × View
  | .create r => v.create env r id (clock 4).2
  | .get _ workflowId _ => (v.get workflowId, v)
  | .plan _ workflowId correlationId =>
    v.plan env agent workflowId correlationId (clock 4).1 (clock 5).2
  | .decideApproval .. => (.error (.application .permissionDenied
      "The current role cannot decide approval requests."), v)
  | .processNextTask .. => (.error (.application .permissionDenied
      "The current role cannot process execution tasks."), v)

end View

/-! ## Views of a state -/

variable {env env' : Environment} {agent : DeterministicAgentRuntime} {s s' : State}
  {p q : Principal} {w w' : Workflow} {id key : String} {clock : Nat → Datetime × Datetime}

theorem view_workflow : (view p s).workflow id = some w ↔
    s.stored id = some w ∧ w.ownerId = p.subject := by
  unfold view
  rw [Option.filter_eq_some_iff, decide_eq_true_eq]

theorem view_workflow_none (h : ∀ w, s.stored id = some w → w.ownerId ≠ p.subject) :
    (view p s).workflow id = none := by
  rw [Option.eq_none_iff_forall_ne_some]
  intro w hw
  obtain ⟨hw, ho⟩ := view_workflow.mp hw
  exact h w hw ho

/-- What the repository does not hold is not seen. -/
theorem view_congr (h : s'.repository = s.repository) : view p s' = view p s := by
  unfold view State.stored State.bound
  rw [h]

theorem view_put (ho : w.ownerId = p.subject) : view p (s.put w) = (view p s).put w := by
  unfold view View.put
  congr 1
  funext id
  rw [put_stored, Function.update_apply]
  split
  · simp [ho]
  · rfl

theorem view_insert (ho : w.ownerId = p.subject) :
    view p (s.insert w key) = (view p s).insert w key := by
  unfold view View.insert
  congr 1
  · funext id
    rw [insert_stored, Function.update_apply]
    split
    · simp [ho]
    · rfl
  · funext key'
    rw [insert_bound, Function.update_apply, ho]
    simp only [Prod.mk.injEq, true_and]

/-- A workflow of somebody else, in the place of one of somebody else, is not seen. -/
theorem view_put_other (ho : w'.ownerId ≠ p.subject)
    (hw : ∀ w, s.stored w'.workflowId = some w → w.ownerId ≠ p.subject) :
    view p (s.put w') = view p s := by
  have hnone : (s.stored w'.workflowId).filter (fun w => w.ownerId = p.subject) = none :=
    view_workflow_none hw
  unfold view
  congr 1
  funext id
  rw [put_stored]
  split
  · rename_i hid
    rw [hid, hnone]
    simp [ho]
  · rfl

theorem view_insert_other (ho : w'.ownerId ≠ p.subject) (hw : s.stored w'.workflowId = none) :
    view p (s.insert w' key) = view p s := by
  unfold view
  congr 1
  · funext id
    rw [insert_stored]
    split
    · rename_i hid
      subst hid
      rw [hw]
      simp [ho]
    · rfl
  · funext key'
    rw [insert_bound, if_neg]
    intro he
    exact ho (Prod.mk.inj he).1.symm

/-! ## The calls of a requester -/

/-- The principal is a requester, and nothing else. -/
def Principal.OnlyRequests (p : Principal) : Prop := p.roles = {.requester}

theorem mayRead_iff (hp : p.OnlyRequests) : p.MayRead w ↔ w.ownerId = p.subject := by
  have hr : p.roles ∩ {.reviewer, .operator, .administrator} = ∅ := by rw [hp]; decide
  unfold Principal.MayRead
  rw [or_iff_left (not_not.mpr hr)]

theorem mayPlan_iff (hp : p.OnlyRequests) : p.MayPlan w ↔ w.ownerId = p.subject := by
  have hr : Role.administrator ∉ p.roles := by rw [hp]; decide
  unfold Principal.MayPlan
  rw [or_iff_left hr]

/-- What a call does to the stores, seen by the caller and by everybody else. -/
structure SeenAs (p : Principal) (s : State) (seen : Except Failure Workflow × View)
    (r : Except Failure Workflow) (left : State) : Prop where
  own : (r, view p left) = seen
  others : ∀ q : Principal, q.subject ≠ p.subject → view q left = view q s

theorem seen_create (hf : Function.Injective env.idFactory) (hc : Consistent env s)
    {r : CreateRequest} (hp : r.principal.OnlyRequests) {o : Except Failure Workflow} {left : State}
    {outcomes : List String} (hx : Exit env clock s (.create r) o left outcomes) :
    SeenAs r.principal s ((view r.principal s).create env r (env.idFactory s.issued.length)
      (clock 4).2) o left := by
  unfold View.create
  cases hx with
  | createDenied role =>
    rw [hp] at role
    exact absurd role (by decide)
  | overlayUnavailable _ overlay => exact ⟨by rw [if_pos overlay], fun _ _ => rfl⟩
  | intakeRefused _ overlay refused =>
    exact ⟨by rw [if_neg (not_not.mpr overlay), if_pos refused], fun _ _ => rfl⟩
  | createConflict admitted bound stored other =>
    have hallowed : (r.decision env).executionAllowed = true := admitted.policy
    obtain ⟨w, hw, ho⟩ := hc.bound bound
    cases stored.symm.trans hw
    have hkey : (view r.principal s).key r.idempotencyKey = some _ := bound
    refine ⟨?_, fun _ _ => rfl⟩
    rw [if_neg (not_not.mpr admitted.overlay), if_neg (by rw [hallowed]; decide)]
    simp only [hkey, view_workflow.mpr ⟨stored, ho⟩, if_neg other]
  | createReplayed admitted bound stored same =>
    have hallowed : (r.decision env).executionAllowed = true := admitted.policy
    obtain ⟨w, hw, ho⟩ := hc.bound bound
    cases stored.symm.trans hw
    have hkey : (view r.principal s).key r.idempotencyKey = some _ := bound
    refine ⟨?_, fun _ _ => rfl⟩
    rw [if_neg (not_not.mpr admitted.overlay), if_neg (by rw [hallowed]; decide)]
    simp only [hkey, view_workflow.mpr ⟨stored, ho⟩, if_pos same]
  | created admitted unbound =>
    have hallowed : (r.decision env).executionAllowed = true := admitted.policy
    have hkey : (view r.principal s).key r.idempotencyKey = none := unbound
    refine ⟨?_, fun q hq => ?_⟩
    · rw [if_neg (not_not.mpr admitted.overlay), if_neg (by rw [hallowed]; decide)]
      simp only [hkey]
      rw [view_insert rfl]
    · exact view_insert_other (Ne.symm hq) (hc.fresh hf)

theorem seen_get (hp : p.OnlyRequests) {correlationId : String} {o : Except Failure Workflow}
    {left : State} {outcomes : List String}
    (hx : Exit env clock s (.get p id correlationId) o left outcomes) :
    SeenAs p s ((view p s).get id, view p s) o left := by
  unfold View.get
  cases hx with
  | readHidden hidden =>
    have hnone : (view p s).workflow id = none :=
      view_workflow_none fun w hw ho => hidden w hw ((mayRead_iff hp).mpr ho)
    exact ⟨by rw [hnone]; rfl, fun _ _ => rfl⟩
  | read stored may =>
    exact ⟨by rw [view_workflow.mpr ⟨stored, (mayRead_iff hp).mp may⟩], fun _ _ => rfl⟩

theorem seen_plan (hc : Consistent env s) (hg : RunsGraph env agent) (hp : p.OnlyRequests)
    {correlationId : String} {o : Except Failure Workflow} {left : State} {outcomes : List String}
    (hx : Exit env clock s (.plan p id correlationId) o left outcomes) :
    SeenAs p s ((view p s).plan env agent id correlationId (clock 4).1 (clock 5).2) o left := by
  have hrun (planningInput : PlanningInput) :
      agent.plan { planningInput, completedStates := [] } planningInput =
        env.runtime s.runtimeCalls planningInput := by
    obtain ⟨thread, h⟩ := hg s.runtimeCalls planningInput
    rw [h, agent.plan_eq, agent.plan_eq]
  have hopen : ∀ {w}, Unplanned s p id w → (view p s).workflow id = some w ∧
      ¬w.planningResult ≠ none := fun h =>
    ⟨view_workflow.mpr ⟨h.stored, (mayPlan_iff hp).mp h.may⟩, not_not.mpr h.unplanned⟩
  unfold View.plan
  cases hx with
  | planHidden hidden =>
    have hnone : (view p s).workflow id = none :=
      view_workflow_none fun w hw ho => hidden w hw ((mayPlan_iff hp).mpr ho)
    exact ⟨by rw [hnone]; rfl, fun _ _ => rfl⟩
  | planReplayed stored may planned =>
    have hw := view_workflow.mpr ⟨stored, (mayPlan_iff hp).mp may⟩
    exact ⟨by simp only [hw, if_pos planned], fun _ _ => rfl⟩
  | planningRefused opened refused =>
    obtain ⟨hw, hn⟩ := hopen opened
    exact ⟨by simp only [hw, if_neg hn, refused, if_true], fun _ _ => rfl⟩
  | injectionRejected opened allowed answer =>
    obtain ⟨hw, hn⟩ := hopen opened
    refine ⟨?_, fun _ _ => rfl⟩
    simp only [hw, if_neg hn, allowed, hrun, answer]
    rfl
  | gateRejected opened allowed answer =>
    obtain ⟨hw, hn⟩ := hopen opened
    refine ⟨?_, fun _ _ => rfl⟩
    simp only [hw, if_neg hn, allowed, hrun, answer]
    rfl
  | runtimeFailed opened allowed answer =>
    obtain ⟨hw, hn⟩ := hopen opened
    refine ⟨?_, fun _ _ => rfl⟩
    simp only [hw, if_neg hn, allowed, hrun, answer]
    rfl
  | @planned _ _ _ w result opened allowed answer w' stored =>
    obtain ⟨hw, hn⟩ := hopen opened
    have ho : w'.ownerId = p.subject := by
      rw [stored]
      exact (mayPlan_iff hp).mp opened.may
    refine ⟨?_, fun q hq => ?_⟩
    · simp only [hw, if_neg hn, allowed, hrun, answer]
      rw [view_put ho, stored]
      rfl
    · refine view_put_other (by rw [ho]; exact Ne.symm hq) fun v hv => ?_
      obtain ⟨hid, -, -⟩ := hc.stored opened.stored
      have hsame : w'.workflowId = id := by rw [stored]; exact hid
      rw [hsame, opened.stored] at hv
      cases hv
      rw [(mayPlan_iff hp).mp opened.may]
      exact Ne.symm hq

theorem seen_decide (hp : p.OnlyRequests) {d : Decision}
    {workflowId reason correlationId : String} {o : Except Failure Workflow} {left : State}
    {outcomes : List String}
    (hx : Exit env clock s (.decideApproval p id d reason key correlationId) o left outcomes) :
    SeenAs p s ((view p s).answer env agent workflowId clock
      (.decideApproval p id d reason key correlationId)) o left := by
  have hr : p.roles ∩ {.reviewer, .administrator} = ∅ := by rw [hp]; decide
  have may : ∀ {w}, ¬p.MayDecide w := fun h => h.1 hr
  cases hx with
  | decideDenied => exact ⟨rfl, fun _ _ => rfl⟩
  | decideMissing role => exact absurd hr role
  | selfApproval role => exact absurd hr role
  | decidedByOther closed => exact absurd closed.may may
  | decidedOtherwise closed => exact absurd closed.may may
  | decisionReplayed closed => exact absurd closed.may may
  | replayMisbound closed => exact absurd closed.may may
  | notPending _ h => exact absurd h may
  | proposalExpired opened => exact absurd opened.may may
  | decided opened => exact absurd opened.may may
  | decidedMisbound opened => exact absurd opened.may may

theorem seen_process (hp : p.OnlyRequests) {correlationId : String}
    {o : Except Failure Workflow} {left : State} {outcomes : List String}
    (hx : Exit env clock s (.processNextTask p correlationId) o left outcomes) :
    SeenAs p s ((view p s).answer env agent id clock (.processNextTask p correlationId)) o
      left := by
  have may : ¬p.MayProcess := by
    unfold Principal.MayProcess
    rw [hp]
    decide
  cases hx with
  | processDenied => exact ⟨rfl, fun _ _ => rfl⟩
  | nothingPending h => exact absurd h may
  | redelivered next => exact absurd next.may may
  | deliveredStale next => exact absurd next.may may
  | approvalExpired next => exact absurd next.may may
  | executionRefused next => exact absurd next.may may
  | executed next => exact absurd next.may may
  | resumed next => exact absurd next.may may

/-- **A call of a requester acts on the requester's own store.** -/
theorem seen_answer (hf : Function.Injective env.idFactory) (hg : RunsGraph env agent)
    (hc : Consistent env s) (call : Call) (hp : call.principal.OnlyRequests) (n : Nat)
    (clock : Nat → Datetime × Datetime) :
    SeenAs call.principal s
      ((view call.principal s).answer env agent (env.idFactory s.issued.length) clock call)
      (answer env n s call clock).1 (answer env n s call clock).2 := by
  have hends : Ends env clock s call (answer env n s call clock) := hc.ends call
  obtain ⟨left, outcomes, hx, hs, -⟩ := hends
  have hseen : SeenAs call.principal s
      ((view call.principal s).answer env agent (env.idFactory s.issued.length) clock call)
      (answer env n s call clock).1 left := by
    cases call with
    | create r => exact seen_create hf hc hp hx
    | get p id correlationId => exact seen_get hp hx
    | plan p id correlationId => exact seen_plan hc hg hp hx
    | decideApproval p id d reason key correlationId => exact seen_decide hp hx
    | processNextTask p correlationId => exact seen_process hp hx
  constructor
  · rw [view_congr hs.repository]
    exact hseen.own
  · intro q hq
    rw [view_congr hs.repository]
    exact hseen.others q hq

/-! ## Two services -/

/-- The two environments differ in their ids, and in the checkpoints of their
planning threads, and in nothing else. -/
structure SameService (agent : DeterministicAgentRuntime) (env env' : Environment) : Prop where
  runtime : RunsGraph env agent
  runtime' : RunsGraph env' agent
  classifier : env'.classifier = env.classifier
  policy : env'.policy = env.policy
  lower : env'.lower = env.lower
  ticketSchema : env'.ticketSchema = env.ticketSchema

theorem SameService.answer_eq (h : SameService agent env env') (v : View) (call : Call) :
    v.answer env' agent id clock call = v.answer env agent id clock call := by
  obtain ⟨-, -, hclassifier, hpolicy, hlower, hschema⟩ := h
  obtain ⟨runtime, classifier, policy, idFactory, lower, ticketSchema⟩ := env
  obtain ⟨runtime', classifier', policy', idFactory', lower', ticketSchema'⟩ := env'
  dsimp only at hclassifier hpolicy hlower hschema
  subst hclassifier hpolicy hlower hschema
  cases call <;> rfl

/-- **Requesters learn nothing about each other's workflows.** In two reachable
states with the same view, a call of a requester with the same id and times has the
same answer and leaves the same view; the calls of other requesters leave the view
alone; and what is not the requester's own answers as if it were not there. -/
theorem requester_confidential (hf : Function.Injective env.idFactory)
    (hf' : Function.Injective env'.idFactory) (hsame : SameService agent env env')
    {c c' : PoolConfig} (hc : Reachable env c) (hc' : Reachable env' c') (hp : p.OnlyRequests) :
    (view p c.state = view p c'.state →
      env.idFactory c.state.issued.length = env'.idFactory c'.state.issued.length →
      ∀ call : Call, call.principal = p → ∀ n n' clock,
        (answer env n c.state call clock).1 = (answer env' n' c'.state call clock).1 ∧
        view p (answer env n c.state call clock).2 =
          view p (answer env' n' c'.state call clock).2) ∧
    (∀ call : Call, call.principal.OnlyRequests → call.principal.subject ≠ p.subject →
      ∀ n clock, view p (answer env n c.state call clock).2 = view p c.state) ∧
    (∀ id, (∀ w, c.state.stored id = some w → w.ownerId ≠ p.subject) →
      ∀ correlationId n clock,
        (answer env n c.state (.get p id correlationId) clock).1 = .error hiddenWorkflow ∧
        (answer env n c.state (.plan p id correlationId) clock).1 = .error hiddenWorkflow) := by
  have hcons := hc.consistent hf
  have hcons' := hc'.consistent hf'
  refine ⟨fun hview hid call hcall n n' clock => ?_, fun call hq hne n clock => ?_,
    fun id hhidden correlationId n clock => ?_⟩
  · subst hcall
    have h := (seen_answer hf hsame.runtime hcons call hp n clock).own
    have h' := (seen_answer hf' hsame.runtime' hcons' call hp n' clock).own
    rw [← hview, ← hid, hsame.answer_eq, ← h] at h'
    exact ⟨(congrArg Prod.fst h').symm, (congrArg Prod.snd h').symm⟩
  · exact (seen_answer hf hsame.runtime hcons call hq n clock).others p (Ne.symm hne)
  · have hnone := view_workflow_none hhidden
    have hget := (seen_answer hf hsame.runtime hcons (.get p id correlationId) hp n clock).own
    have hplan := (seen_answer hf hsame.runtime hcons (.plan p id correlationId) hp n clock).own
    constructor
    · rw [congrArg Prod.fst hget]
      simp only [View.answer, View.get, Call.principal, hnone]
    · rw [congrArg Prod.fst hplan]
      simp only [View.answer, View.plan, Call.principal, hnone]

/-- The service of the examples, where another id is given out first. -/
def otherEnv : Environment :=
  { sampleEnv with
    idFactory := fun n => match n with
      | 0 => "x"
      | n + 1 => sampleId n }

theorem otherEnv_injective : Function.Injective otherEnv.idFactory := by
  have hx (n : Nat) : "x" ≠ sampleId n := by
    intro h
    have hl := congrArg String.toList h
    simp [sampleId, List.replicate_succ] at hl
  intro m n h
  cases m with
  | zero =>
    cases n with
    | zero => rfl
    | succ n => exact absurd h (hx n)
  | succ m =>
    cases n with
    | zero => exact absurd h.symm (hx m)
    | succ n => rw [sampleId_injective h]

theorem otherEnv_sameService : SameService sampleAgent sampleEnv otherEnv :=
  ⟨sampleEnv_runsGraph, sampleEnv_runsGraph, rfl, rfl, rfl, rfl⟩

/-- The same request, by another requester. -/
def otherRequest : CreateRequest :=
  { sampleRequest with principal := ⟨"other-requester", "Other Requester", {.requester}⟩ }

/-- The request of the examples is answered alike, whether or not somebody else has
made one under the same key before. -/
theorem requester_confidential_otherRequest :
    (answer sampleEnv 0 { now := 0, utc := 0 } (.create sampleRequest) fun _ => (2, 2)).1 =
      (answer otherEnv 1 (serve otherEnv 0 { now := 0, utc := 0 } [(.create otherRequest, 1, 1)])
        (.create sampleRequest) fun _ => (2, 2)).1 := by
  have hcons : Consistent otherEnv { now := 0, utc := 0 } := initial_consistent ..
  have hview : view localRequester { now := 0, utc := 0 } =
      view localRequester (serve otherEnv 0 { now := 0, utc := 0 }
        [(.create otherRequest, 1, 1)]) :=
    ((seen_answer otherEnv_injective sampleEnv_runsGraph hcons (.create otherRequest) rfl 0
      fun _ => (1, 1)).others localRequester (by decide)).symm
  have hissued : (serve otherEnv 0 { now := 0, utc := 0 }
      [(.create otherRequest, 1, 1)]).issued.length = 1 := by decide
  obtain ⟨c, hc, hs, -⟩ := (sequential_serve otherEnv 0 0 [(.create otherRequest, 1, 1)]).reachable
  have h := requester_confidential sampleId_injective otherEnv_injective otherEnv_sameService
    (reachable_play sampleEnv 0 0 []) hc (by rfl : localRequester.OnlyRequests)
  rw [hs] at h
  have hid : sampleEnv.idFactory 0 = otherEnv.idFactory
      (serve otherEnv 0 { now := 0, utc := 0 } [(.create otherRequest, 1, 1)]).issued.length := by
    rw [hissued]
    rfl
  exact (h.1 hview hid (.create sampleRequest) rfl 0 1 fun _ => (2, 2)).1

end AgenticDelivery.Api
