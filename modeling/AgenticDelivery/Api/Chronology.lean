import AgenticDelivery.Api.SideEffects
import AgenticDelivery.Api.Timestamps

/-! # The order of the timestamps

When the clock never goes back, a stored workflow is in chronological order, up
to one comparison: a delivery takes its time before it calls the executor, and
the record that it is given may be of another delivery, which has taken its
time later. Where no caller is given such a record, the completion comes after
the execution as well. -/
namespace AgenticDelivery.Api
open AgenticDelivery.Atomic AgenticDelivery.Data AgenticDelivery.Governance AgenticDelivery.Runtime

/-! ## One workflow -/

/-- The times of the transitions to `state`. -/
def marks (transitions : List StateTransition) (state : WorkflowState) : List Datetime :=
  (transitions.filter (·.current = state)).map (·.at_)

/-- The order of the timestamps of a workflow. -/
structure Chronological (w : Workflow) : Prop where
  created : ∀ x ∈ w.transitions, w.createdAt ≤ x.at_
  transitions : (w.transitions.map (·.at_)).Pairwise (· ≤ ·)
  approval : ∀ approval, w.approvalDecision = some approval → ∃ proposal,
    w.actionProposal = some proposal ∧ approval.decidedAt ≤ approval.expiresAt ∧
      approval.expiresAt ≤ proposal.expiresAt
  completed : w.status = .completed → ∃ result approval started ended,
    w.executionResult = some result ∧ w.approvalDecision = some approval ∧
      marks w.transitions .executing = [started] ∧ marks w.transitions .completed = [ended] ∧
      started ≤ result.executedAt ∧ result.executedAt ≤ ended ∧ approval.consumedAt = some ended

/-- Created first, and in order since. -/
structure Ordered (w : Workflow) : Prop where
  created : ∀ x ∈ w.transitions, w.createdAt ≤ x.at_
  transitions : (w.transitions.map (·.at_)).Pairwise (· ≤ ·)

/-- Nothing in the history is later than `t`. -/
structure UpTo (w : Workflow) (t : Datetime) : Prop where
  created : w.createdAt ≤ t
  transitions : ∀ x ∈ w.transitions, x.at_ ≤ t

/-- What the status says of the transitions to `executing` and `completed`. -/
def Marked (w : Workflow) : Prop :=
  match w.status with
  | .executing => (∃ started, marks w.transitions .executing = [started]) ∧
      marks w.transitions .completed = []
  | .completed => (∃ started, marks w.transitions .executing = [started]) ∧
      ∃ approval ended, w.approvalDecision = some approval ∧ approval.consumedAt = some ended ∧
        marks w.transitions .completed = [ended]
  | _ => marks w.transitions .executing = [] ∧ marks w.transitions .completed = []

section Marks
variable {env : Environment} {call : Call} {w w' : Workflow} {t : Datetime}

@[simp] theorem marks_append (l l' : List StateTransition) (state : WorkflowState) :
    marks (l ++ l') state = marks l state ++ marks l' state := by
  simp only [marks, List.filter_append, List.map_append]

theorem mem_marks {l : List StateTransition} {state : WorkflowState} :
    t ∈ marks l state ↔ ∃ x ∈ l, x.current = state ∧ x.at_ = t := by
  simp only [marks, List.mem_map, List.mem_filter, decide_eq_true_eq, and_assoc]

/-- Planning neither executes nor completes. -/
theorem marks_checkpoints (now : Datetime) {state : WorkflowState}
    (hs : state = .executing ∨ state = .completed) :
    ∀ (steps : List CompletedState) (previous : WorkflowState),
      marks (Workflow.checkpoints now previous steps) state = []
  | [], _ => by
    rcases hs with rfl | rfl
    · rfl
    · rfl
  | step :: steps, _ => by
    have ih := marks_checkpoints now hs steps (stateOfStep step)
    have hne : stateOfStep step ≠ state := by
      rcases hs with rfl | rfl <;> cases step <;> decide
    rw [marks, Workflow.checkpoints, List.filter_cons_of_neg (by simpa using hne)]
    exact ih

theorem Lifecycle.marked (h : Lifecycle env w) : Marked w := by
  induction h with
  | receive => exact ⟨rfl, rfl⟩
  | @advance _ w _ _ ha ih =>
    cases ha with
    | plan _ status =>
      simp only [Marked, status] at ih
      simp only [Marked, Workflow.applyPlanningResult, marks_append, ih,
        marks_checkpoints _ (.inl rfl), marks_checkpoints _ (.inr rfl), List.append_nil, and_self]
    | expireProposal _ status =>
      simp only [Marked, status] at ih
      simpa [Marked, Workflow.expire, ih] using ⟨rfl, rfl⟩
    | @decide _ d _ _ _ _ _ _ _ status =>
      simp only [Marked, status] at ih
      cases d with
      | approved =>
        simpa [Marked, Workflow.recordApproval, createApprovalDecision, stateOfDecision, ih]
          using ⟨rfl, rfl⟩
      | rejected =>
        simpa [Marked, Workflow.recordApproval, createApprovalDecision, stateOfDecision, ih]
          using ⟨rfl, rfl⟩
    | expireApproval _ status =>
      simp only [Marked, status] at ih
      simpa [Marked, Workflow.expire, ih] using ⟨rfl, rfl⟩
    | @beginExecution _ _ _ _ now _ status =>
      simp only [Marked, status] at ih
      simp only [Marked, Workflow.beginExecution, marks_append, ih, List.nil_append]
      exact ⟨⟨now, rfl⟩, rfl⟩
    | @completeExecution _ _ _ _ _ _ now _ status _ _ _ completed =>
      obtain ⟨_, -, rfl⟩ := completeExecution_ok completed
      simp only [Marked, status] at ih
      obtain ⟨⟨started, hs⟩, he⟩ := ih
      refine ⟨⟨started, ?_⟩, _, now, rfl, rfl, ?_⟩
      · rw [marks_append, hs]
        rfl
      · rw [marks_append, he]
        rfl

/-- Only the start of the execution marks it. -/
theorem Advance.marks_executing (h : Advance env call w w') (hs : w'.status ≠ .executing) :
    marks w'.transitions .executing = marks w.transitions .executing := by
  cases h with
  | plan =>
    rw [Workflow.applyPlanningResult, marks_append, marks_checkpoints _ (.inl rfl),
      List.append_nil]
  | expireProposal => exact (marks_append ..).trans (List.append_nil _)
  | @decide _ d =>
    cases d with
    | approved => exact (marks_append ..).trans (List.append_nil _)
    | rejected => exact (marks_append ..).trans (List.append_nil _)
  | expireApproval => exact (marks_append ..).trans (List.append_nil _)
  | beginExecution => exact absurd rfl hs
  | completeExecution _ _ _ _ _ completed =>
    obtain ⟨_, -, rfl⟩ := completeExecution_ok completed
    exact (marks_append ..).trans (List.append_nil _)

end Marks

/-! ### Order along the stamps -/

section Order
variable {log : List CallEvent} {w w' : Workflow} {t t' : Datetime}

theorem UpTo.mono (h : UpTo w t) (ht : t ≤ t') : UpTo w t' :=
  ⟨h.created.trans ht, fun x hx => (h.transitions x hx).trans ht⟩

theorem UpTo.stamped (h : UpTo w t) (hs : Stamped w w' t) : UpTo w' t := by
  obtain ⟨news, hn, ht⟩ := hs.transitions
  refine ⟨by rw [hs.createdAt]; exact h.created, fun x hx => ?_⟩
  rw [hn] at hx
  rcases List.mem_append.mp hx with hx | hx
  · exact h.transitions x hx
  · exact (ht x hx).le

/-- A stamp with a time after all the others keeps the order. -/
theorem Ordered.stamped (h : Ordered w) (hu : UpTo w t) (hs : Stamped w w' t) : Ordered w' := by
  obtain ⟨news, hn, ht⟩ := hs.transitions
  refine ⟨fun x hx => ?_, ?_⟩
  · rw [hn] at hx
    rw [hs.createdAt]
    rcases List.mem_append.mp hx with hx | hx
    · exact h.created x hx
    · rw [ht x hx]
      exact hu.created
  · rw [hn, List.map_append, List.pairwise_append]
    refine ⟨h.transitions, ?_, ?_⟩
    · refine List.pairwise_map.mpr (List.pairwise_of_forall_mem_list fun x hx z hz => ?_)
      rw [ht x hx, ht z hz]
    · intro a ha b hb
      obtain ⟨x, hx, rfl⟩ := List.mem_map.mp ha
      obtain ⟨z, hz, rfl⟩ := List.mem_map.mp hb
      rw [ht z hz]
      exact hu.transitions x hx

end Order

/-! ## The stores -/

/-- The stored workflows are in order, up to now, and no record is older than the
transition to `executing` of its workflow. -/
structure OnTime (s : State) : Prop where
  clock : s.utc = s.now
  stored : ∀ {id w}, s.stored id = some w → Ordered w ∧ UpTo w s.now
  begun : ∀ {id key w r}, s.stored id = some w → s.record key = some r → RecordFor w r →
    ∀ t ∈ marks w.transitions .executing, t ≤ r.executedAt

/-- What a call remembers was so when it read the clock. -/
structure Recalls (env : Environment) (s : State) (log : List CallEvent) : Prop where
  known : ∀ w ∈ reads log ++ writes log, Known env w s
  read : ∀ w ∈ reads log, Ordered w ∧ UpTo w s.now
  before : ∀ {w t}, ReadBefore log w t → UpTo w t
  time : ∀ t ∈ times log, t ≤ s.now

section Stores
variable {env : Environment} {call : Call} {s s' : State} {log : List CallEvent}
  {w w' : Workflow} {t : Datetime}

theorem Recalls.nil (env : Environment) (s : State) : Recalls env s [] where
  known _ h := by cases h
  read _ h := by cases h
  before h := by
    obtain ⟨before, after, hl, hw, -⟩ := h
    obtain ⟨rfl, -⟩ := List.append_eq_nil_iff.mp hl.symm
    cases hw
  time _ h := by cases h

theorem Recalls.mono (h : Recalls env s log) (he : Evolve env s s') (hn : s.now ≤ s'.now) :
    Recalls env s' log where
  known w hw := (h.known w hw).evolve he
  read w hw := ⟨(h.read w hw).1, (h.read w hw).2.mono hn⟩
  before := h.before
  time t ht := (h.time t ht).trans hn

/-- One more event: what it reads is stored in order, and its time is now. -/
theorem Recalls.snoc (h : Recalls env s log) {e : CallEvent}
    (hk : ∀ w, readOf e = some w ∨ writeOf e = some w → Known env w s)
    (hr : ∀ w, readOf e = some w → Ordered w ∧ UpTo w s.now)
    (ht : ∀ t, timeOf e = some t → t = s.now) : Recalls env s (log ++ [e]) where
  known w hw := by
    simp only [reads_append, writes_append, reads_cons, writes_cons, reads_nil, writes_nil,
      List.append_nil, List.mem_append, Option.mem_toList] at hw
    rcases hw with (hw | hw) | (hw | hw)
    · exact h.known w (List.mem_append_left _ hw)
    · exact hk w (.inl hw)
    · exact h.known w (List.mem_append_right _ hw)
    · exact hk w (.inr hw)
  read w hw := by
    simp only [reads_append, reads_cons, reads_nil, List.append_nil, List.mem_append,
      Option.mem_toList] at hw
    rcases hw with hw | hw
    · exact h.read w hw
    · exact hr w hw
  before hb := by
    rcases readBefore_snoc_cases hb with hb | ⟨hw, he⟩
    · exact h.before hb
    · rw [ht _ he]
      exact (h.read _ hw).2
  time t hm := by
    simp only [times_append, times_cons, times_nil, List.append_nil, List.mem_append,
      Option.mem_toList] at hm
    rcases hm with hm | hm
    · exact h.time t hm
    · exact (ht t hm).le

/-- What a call has seen at a time is in order, up to that time. -/
theorem Recalls.seen (h : Recalls env s log) (hs : Seen log w t) : Ordered w ∧ UpTo w t := by
  induction hs with
  | read hb =>
    refine ⟨?_, h.before hb⟩
    obtain ⟨before, after, rfl, hw, -⟩ := hb
    refine (h.read _ ?_).1
    rw [reads_append]
    exact List.mem_append_left _ hw
  | stamped _ hstamp ih => exact ⟨ih.1.stamped ih.2 hstamp, ih.2.stamped hstamp⟩

/-- What a call knows of a workflow is still stored when the status is. -/
theorem Recalls.current (h : Recalls env s log) (hmem : w ∈ reads log ++ writes log)
    (hw : s.stored w.workflowId = some w') (hs : w.status = w'.status) : w = w' := by
  obtain ⟨-, v, hv, hlater⟩ := h.known w hmem
  cases hw.symm.trans hv
  rcases hlater.eq_or_lt (·.status.rank) Advance.rank_lt with heq | hlt
  · exact heq
  · rw [hs] at hlt
    exact absurd hlt (Nat.lt_irrefl _)

/-- An update that a call stores in time. -/
theorem OnTime.put (hc : Consistent env s) (h : OnTime s) (hl : Recalls env s log)
    (hw : s.stored w'.workflowId = some w) (ha : Advance env call w w') (hs : Stores log w') :
    OnTime (s.put w') := by
  obtain ⟨w₁, t, hseen, hstamp, -⟩ := hs
  obtain ⟨ho, hu⟩ := hl.seen hseen
  obtain ⟨hid, hlife, -⟩ := hc.stored hw
  refine ⟨h.clock, fun {id v} hv => ?_, fun {id key v r} hv hr hfor t' ht' => ?_⟩
  · rw [put_stored] at hv
    split at hv
    · cases hv
      exact ⟨ho.stamped hu hstamp, (hu.stamped hstamp).mono (hl.time t hseen.time)⟩
    · exact h.stored hv
  · rw [put_stored] at hv
    split at hv
    · cases hv
      -- there is no record before the start of the execution
      have hfor' : RecordFor w r := by rw [RecordFor, hid]; exact hfor
      obtain ⟨_, _, -, -, -, -, -, hstatus⟩ := recorded_of_recordFor hc hw hr hfor'
      have hne : w'.status ≠ .executing := by
        intro he
        have hstep := ha.status_step
        rw [he] at hstep
        rcases hstatus with hstatus | ⟨hstatus, -⟩ <;> rw [hstatus] at hstep <;>
          exact absurd hstep (by decide)
      rw [ha.marks_executing hne] at ht'
      exact h.begun hw hr hfor' t' ht'
    · exact h.begun hv hr hfor t' ht'

/-- A new workflow that a call stores in time. -/
theorem OnTime.insert (h : OnTime s) {r : CreateRequest} {id key : String} {now : Datetime}
    (hn : now ≤ s.now) : OnTime (s.insert (r.received env id now) key) := by
  refine ⟨h.clock, fun {id v} hv => ?_, fun {id key v r} hv hr hfor t' ht' => ?_⟩
  · rw [insert_stored] at hv
    split at hv
    · cases hv
      refine ⟨⟨fun x hx => ?_, List.pairwise_singleton _ _⟩, hn, fun x hx => ?_⟩
      · rw [List.mem_singleton.mp hx]
        exact le_refl _
      · rw [List.mem_singleton.mp hx]
        exact hn
    · exact h.stored hv
  · rw [insert_stored] at hv
    split at hv
    · cases hv
      cases ht'
    · exact h.begun hv hr hfor t' ht'

/-- A new record, for a workflow whose history is not later. -/
theorem OnTime.file (hc : Consistent env s) (h : OnTime s) {r : ToolExecutionResult} {id : String}
    (hw : s.stored id = some w) (hr : RecordFor w r) (hu : UpTo w r.executedAt) :
    OnTime (s.file r) := by
  refine ⟨h.clock, h.stored, fun {id' key v r'} hv hr' hfor t' ht' => ?_⟩
  rw [file_record] at hr'
  split at hr'
  · cases hr'
    have he : w.workflowId = v.workflowId := ticketKey_inj_left (hr.symm.trans hfor)
    rw [(hc.stored hw).1, (hc.stored hv).1] at he
    subst he
    cases hw.symm.trans hv
    obtain ⟨x, hx, -, rfl⟩ := mem_marks.mp ht'
    exact hu.transitions x hx
  · exact h.begun hv hr' hfor t' ht'

end Stores

/-! ## Runs -/

/-- The clock never goes back. -/
def Forward (c : PoolConfig) : Move Call (Datetime × Datetime) → Prop
  | .tick t => t.1 = t.2 ∧ c.state.now ≤ t.1
  | _ => True

/-- The record that the next operation of a caller finds at the executor, and the time
that the caller has for it. -/
def foundRecord (c : PoolConfig) : Move Call (Datetime × Datetime) →
    Option (ToolExecutionResult × Datetime)
  | .act tid => (c.threads[tid]?.bind fun t => nextExecute t.rest).bind fun (task, _, now) =>
      (c.state.record task.idempotencyKey).map fun r => (r, now)
  | _ => none

/-- The caller that moves is given no record of a time after its own. -/
def Punctual (c : PoolConfig) (m : Move Call (Datetime × Datetime)) : Prop :=
  ∀ found ∈ foundRecord c m, found.1.executedAt ≤ found.2

/-- Stores and callers are on time. -/
structure Timely (env : Environment) (c : PoolConfig) : Prop where
  onTime : OnTime c.state
  recalls : ∀ (tid : Nat) (t : Caller), c.threads[tid]? = some t → Recalls env c.state t.log

section Runs
variable {env : Environment} {c c' : PoolConfig} {tid : Nat} {t : Caller} {op : Op}
  {next : Reply op → Service Workflow} {now : Datetime}

theorem exec_now (env : Environment) (tid : Nat) (op : Op) (s : State) :
    (exec env tid op s).2.now = s.now := by
  cases op <;> rfl

/-- Every operation of every caller fits its log. -/
theorem Reachable.fits (h : Reachable env c) (ht : c.threads[tid]? = some t)
    (hr : t.rest = .call op next) : Fits t.log op := by
  obtain ⟨now, utc, h⟩ := h
  exact ((h.safe stamping_disciplined (.initial trivial)).next ht hr).2.1

/-- An operation leaves the stores on time. -/
theorem Timely.onTime_exec (hf : Function.Injective env.idFactory) (hc : Reachable env c)
    (h : Timely env c) (ht : c.threads[tid]? = some t) (hr : t.rest = .call op next) :
    OnTime (exec env tid op c.state).2 := by
  have hg := hc.guar hf ht hr
  have hfit := hc.fits ht hr
  have hl := h.recalls tid t ht
  cases op with
  | repositoryUpdate w' v =>
    rcases update_cases env tid c.state w' v with ⟨he, -⟩ | ⟨w, hw, -, he⟩
    · rw [he]
      exact h.onTime
    · obtain ⟨-, w₁, hw₁, -, -, ha⟩ := hg w' (by rw [he])
      rw [he]
      exact h.onTime.put (hc.consistent hf) hl hw₁ ha hfit
  | repositoryCreate w key =>
    obtain ⟨r, now, -, -, -, hw, -⟩ := hg
    rcases create_cases (hc.consistent hf) tid w key with ⟨-, he⟩ | ⟨_, _, -, -, ⟨-, he⟩ | ⟨-, he⟩⟩
    · rw [he, hw]
      refine h.onTime.insert (hl.time _ ?_)
      have hcreated := hfit.1
      rw [hw] at hcreated
      exact hcreated
    · rw [he]
      exact h.onTime
    · rw [he]
      exact h.onTime
  | execute task proposal now =>
    obtain ⟨-, -, w₀, w, -, -, hread, hw, h₀, hlater, hq, hp, hs, -⟩ := hg
    rcases execute_cases (hc.consistent hf) hw hq hp hs tid now with ⟨_, -, -, he⟩ | ⟨-, hx, he⟩
    · rw [he]
      exact h.onTime
    · rw [he]
      obtain ⟨w₁, hmem, hs₁, hseen⟩ := hfit
      -- the workflow that the caller has seen executing is the stored one
      have hid : w₁.workflowId = w.workflowId := by
        obtain ⟨w₂, hw₂, hid⟩ := hseen.workflowId
        rw [hread] at hw₂
        rw [hid, List.mem_singleton.mp hw₂]
        exact (hlater.grows h₀).workflowId.symm
      obtain rfl := hl.current hmem (by rw [hid, ← hq.workflowId]; exact hw) (hs₁.trans hx.symm)
      refine h.onTime.file (hc.consistent hf) hw ?_ (hl.seen hseen).2
      exact hq.idempotencyKey hp
  | _ => exact ⟨h.onTime.clock, h.onTime.stored, h.onTime.begun⟩

/-- A caller that has moved remembers rightly. -/
theorem Timely.recalls_snoc (hf : Function.Injective env.idFactory) (hc : Reachable env c)
    (h : Timely env c) (ht : c.threads[tid]? = some t) (hr : t.rest = .call op next) :
    Recalls env (exec env tid op c.state).2
      (t.log ++ [⟨op, (exec env tid op c.state).1⟩]) := by
  have hkept := ((hc.safeAt hf).next ht hr).1
  have hnow := exec_now env tid op c.state
  refine ((h.recalls tid t ht).mono hkept.evolve hnow.ge).snoc ?_ ?_ ?_
  · intro w hw
    have hstored : (exec env tid op c.state).2.stored w.workflowId = some w := by
      cases op with
      | repositoryGet id =>
        have hw : c.state.stored id = some w := hw.resolve_right nofun
        rw [(hc.consistent hf).stored hw |>.1]
        exact hw
      | repositoryUpdate w' v =>
        have hw := hw.resolve_left nofun
        rcases update_cases env tid c.state w' v with ⟨he, -⟩ | ⟨_, -, -, he⟩
        · rw [he] at hw
          cases hw
        · rw [he] at hw ⊢
          cases hw
          exact put_stored_self _ _
      | _ => exact absurd hw (by simp)
    exact (Known.of_stored hkept.inv hstored).2
  · intro w hw
    cases op with
    | repositoryGet id => exact h.onTime.stored hw
    | _ => cases hw
  · intro t' ht'
    cases op with
    | nowFactory => exact (Option.some.inj ht').symm
    | utcNow => exact (Option.some.inj ht').symm.trans h.onTime.clock
    | _ => cases ht'

/-- **With a clock that never goes back, stores and callers are on time.** -/
theorem timely (hf : Function.Injective env.idFactory)
    (h : (system env).ReachesVia Forward (initial now now) c) : Timely env c := by
  have reachable : ∀ {c}, (system env).ReachesVia Forward (initial now now) c → Reachable env c :=
    fun h => ⟨now, now, h.reaches⟩
  refine h.induct (P := Timely env) ?_ ?_ ?_ ?_
  · refine ⟨⟨rfl, fun hw => ?_, fun hw => ?_⟩, fun _ _ ht => ?_⟩
    · cases hw
    · cases hw
    · cases ht
  · intro c call _ hp
    refine ⟨hp.onTime, fun tid t ht => ?_⟩
    rcases System.start_threads ht with ht | ⟨-, rfl⟩
    · exact hp.recalls tid t ht
    · exact .nil env _
  · intro c tid t op next hc _ hp ht hr
    refine ⟨hp.onTime_exec hf (reachable hc) ht hr, fun i u hu => ?_⟩
    rcases System.advance_threads ht hu with ⟨rfl, rfl⟩ | ⟨-, hu⟩
    · exact hp.recalls_snoc hf (reachable hc) ht hr
    · exact (hp.recalls i u hu).mono (((reachable hc).safeAt hf).next ht hr).1.evolve
        (exec_now env tid op c.state).ge
  · intro c τ hc ⟨hclock, hle⟩ hp
    have hrely := (disciplined hf).tick τ 0 c.state ((reachable hc).consistent hf)
    refine ⟨⟨hclock.symm, fun hw => ?_, hp.onTime.begun⟩, fun i u hu => ?_⟩
    · obtain ⟨ho, hu⟩ := hp.onTime.stored hw
      exact ⟨ho, hu.mono hle⟩
    · exact (hp.recalls i u hu).mono hrely.evolve hle

/-- On time, a stored workflow is chronological up to the comparison of the execution
with the completion. -/
theorem Timely.chronological_iff (hc : Consistent env c.state) (h : Timely env c) {id : String}
    {w : Workflow} (hw : c.state.stored id = some w) :
    Chronological w ↔ ∀ r, w.executionResult = some r →
      ∀ t ∈ marks w.transitions .completed, r.executedAt ≤ t := by
  obtain ⟨-, hlife, -⟩ := hc.stored hw
  have hmarked := hlife.marked
  obtain ⟨⟨hcreated, horder⟩, -⟩ := h.onTime.stored hw
  constructor
  · intro hchron r hr t ht
    have hs : w.status = .completed := by
      by_contra hs
      rw [hlife.no_ticket hs] at hr
      cases hr
    obtain ⟨result, -, -, ended, hresult, -, -, hended, -, hle, -⟩ := hchron.completed hs
    cases hr.symm.trans hresult
    rw [hended] at ht
    rw [List.mem_singleton.mp ht]
    exact hle
  · intro hlast
    refine ⟨hcreated, horder, fun approval ha => ?_, fun hs => ?_⟩
    · obtain ⟨_, _, proposal, _, _, _, decidedAt, hp, -, hle, ha'⟩ := hlife.decided ha
      cases ha.symm.trans ha'
      have h15 : 0 ≤ minutes 15 := by decide
      exact ⟨proposal, hp, le_min hle (Int.le_add_of_nonneg_right h15), min_le_left _ _⟩
    · have he := hlife.evidence
      rw [Evidence, hs] at he
      rw [Marked, hs] at hmarked
      obtain ⟨-, -, proposal, result, -, hresult, hdigest, hkey⟩ := he
      obtain ⟨⟨started, hstarted⟩, approval, ended, ha, hconsumed, hended⟩ := hmarked
      have hfor : RecordFor w result := by rw [RecordFor, hdigest]; exact hkey
      refine ⟨result, approval, started, ended, hresult, ha, hstarted, hended, ?_, ?_, hconsumed⟩
      · refine h.onTime.begun hw (hc.ticketed hw hresult) hfor started ?_
        rw [hstarted]
        exact List.mem_singleton_self _
      · refine hlast result hresult ended ?_
        rw [hended]
        exact List.mem_singleton_self _

/-! ### Completions -/

/-- What is completed was executed before, and no caller was given a record of a time
after its own. -/
structure InSequence (c : PoolConfig) : Prop where
  ended : ∀ {id w r}, c.state.stored id = some w → w.executionResult = some r →
    ∀ t ∈ marks w.transitions .completed, r.executedAt ≤ t
  given : ∀ {tid : Nat} {t : Caller} {task proposal now r}, c.threads[tid]? = some t →
    (⟨.execute task proposal now, .ok r⟩ : CallEvent) ∈ t.log → r.executedAt ≤ now

/-- The executor gives the record that it finds, or a new one of the caller's time. -/
theorem execute_given {s : State} {task : ExecutionTask} {proposal : ToolActionProposal}
    {r : ToolExecutionResult} (h : (exec env tid (.execute task proposal now) s).1 = .ok r) :
    s.record task.idempotencyKey = some r ∨ r.executedAt = now := by
  cases hr : s.record task.idempotencyKey with
  | none =>
    simp only [State.record] at hr
    simp only [exec, SimulatedTicketExecutor.execute, hr] at h
    cases h
    exact .inr rfl
  | some existing =>
    simp only [State.record] at hr
    simp only [exec, SimulatedTicketExecutor.execute, hr] at h
    split at h
    · cases h
    · cases h
      exact .inl rfl

/-- A completion that a call stores comes after its execution. -/
theorem ended_of_stores {log : List CallEvent} {w : Workflow} (hl : Lifecycle env w)
    (hs : Stores log w)
    (hgiven : ∀ {task proposal now r}, (⟨.execute task proposal now, .ok r⟩ : CallEvent) ∈ log →
      r.executedAt ≤ now) {r : ToolExecutionResult} (hr : w.executionResult = some r) :
    ∀ t ∈ marks w.transitions .completed, r.executedAt ≤ t := by
  obtain ⟨w₁, now, -, -, hs | ⟨result, task, proposal, hcomp, hmem⟩⟩ := hs
  · rw [hl.no_ticket hs] at hr
    cases hr
  · have hmarked := hl.marked
    obtain ⟨_, -, rfl⟩ := completeExecution_ok hcomp
    cases hr
    obtain ⟨-, _, ended, ha, hconsumed, hended⟩ := hmarked
    cases ha
    cases hconsumed
    intro t ht
    rw [hended] at ht
    rw [List.mem_singleton.mp ht]
    exact hgiven hmem

/-- An operation keeps the completions in order. -/
theorem InSequence.advance (hf : Function.Injective env.idFactory) (hc : Reachable env c)
    (h : InSequence c) (hp : Punctual c (.act tid)) (ht : c.threads[tid]? = some t)
    (hr : t.rest = .call op next) : InSequence ((system env).advance c tid t op next) := by
  refine ⟨fun {id v r} hv hx => ?_, fun {i u task proposal now r} hu hmem => ?_⟩
  · have hv : (exec env tid op c.state).2.stored id = some v := hv
    have hlife := ((((hc.safeAt hf).next ht hr).1.inv).stored hv).2.1
    cases op with
    | repositoryUpdate w' n =>
      rcases update_cases env tid c.state w' n with ⟨he, -⟩ | ⟨_, -, -, he⟩
      · rw [he] at hv
        exact h.ended hv hx
      · rw [he, put_stored] at hv
        split at hv
        · cases hv
          exact ended_of_stores hlife (hc.fits ht hr) (fun hm => h.given ht hm) hx
        · exact h.ended hv hx
    | repositoryCreate w key =>
      rcases create_cases (hc.consistent hf) tid w key with
        ⟨-, he⟩ | ⟨_, _, -, -, ⟨-, he⟩ | ⟨-, he⟩⟩ <;> rw [he] at hv
      · rw [insert_stored] at hv
        split at hv
        · cases hv
          obtain ⟨_, _, -, -, -, hw, -⟩ := hc.guar hf ht hr
          rw [hw] at hx
          cases hx
        · exact h.ended hv hx
      · exact h.ended hv hx
      · exact h.ended hv hx
    | _ => exact h.ended hv hx
  · rcases System.advance_threads ht hu with ⟨rfl, rfl⟩ | ⟨-, hu⟩
    · rcases List.mem_append.mp hmem with hmem | hmem
      · exact h.given ht hmem
      · have he := List.mem_singleton.mp hmem
        obtain ⟨rfl, hreply⟩ := Event.mk.inj he
        have hreply : (exec env i (.execute task proposal now) c.state).1 = .ok r :=
          (eq_of_heq hreply).symm
        rcases execute_given hreply with hrec | hrec
        · refine hp (r, now) ?_
          simp only [foundRecord, ht, hr, nextExecute, Option.bind_some, hrec, Option.map_some,
            Option.mem_def]
        · exact hrec.le
    · exact h.given hu hmem

/-- **Where no caller is given a record of a time after its own, the evidence of every
stored workflow is in chronological order.** -/
theorem stored_chronological (hf : Function.Injective env.idFactory)
    (h : (system env).ReachesVia (fun c m => Forward c m ∧ Punctual c m) (initial now now) c)
    {id : String} {w : Workflow} (hw : c.state.stored id = some w) : Chronological w := by
  have hsequence : InSequence c := by
    refine h.induct (P := InSequence) ?_ ?_ ?_ ?_
    · refine ⟨fun hw => ?_, fun ht => ?_⟩
      · cases hw
      · cases ht
    · intro c call _ hp
      refine ⟨hp.ended, fun ht hm => ?_⟩
      rcases System.start_threads ht with ht | ⟨-, rfl⟩
      · exact hp.given ht hm
      · cases hm
    · exact fun c tid t op next hc hok hp ht hr =>
        hp.advance hf ⟨now, now, hc.reaches⟩ hok.2 ht hr
    · exact fun c _ _ _ hp => ⟨hp.ended, hp.given⟩
  have hc : Reachable env c := ⟨now, now, h.reaches⟩
  have htimely := timely hf (h.mono fun _ _ hok => hok.1)
  exact (htimely.chronological_iff (hc.consistent hf) hw).mpr fun _ hr => hsequence.ended hw hr

end Runs

/-! ### Two deliveries of one task -/

instance (c : PoolConfig) : ∀ m, Decidable (Forward c m)
  | .tick t => inferInstanceAs (Decidable (t.1 = t.2 ∧ c.state.now ≤ t.1))
  | .spawn _ => .isTrue trivial
  | .act _ => .isTrue trivial

instance (c : PoolConfig) (m : Move Call (Datetime × Datetime)) : Decidable (Punctual c m) :=
  inferInstanceAs (Decidable (∀ found ∈ foundRecord c m, _))

/-- A request that is created, planned and approved at 0, and executed at 10. -/
def promptDelivery : List (Move Call (Datetime × Datetime)) :=
  approvedRun ++ [.tick (10, 10)] ++ moves 3 (.processNextTask localOperator "c-4") 12

/-- The evidence of a prompt delivery is in chronological order. -/
theorem stored_chronological_promptDelivery :
    ∃ w, ((system sampleEnv).play (initial 0 0) promptDelivery).state.stored "w" = some w ∧
      w.status = .completed ∧ Chronological w := by
  obtain ⟨hok, hs⟩ : (system sampleEnv).Allows (fun c m => Forward c m ∧ Punctual c m)
      (initial 0 0) promptDelivery ∧ (((system sampleEnv).play (initial 0 0)
        promptDelivery).state.stored "w").map (·.status) = some .completed := by
    decide +kernel
  obtain ⟨w, hw, hs⟩ := Option.map_eq_some_iff.mp hs
  exact ⟨w, hw, hs, stored_chronological sampleId_injective (System.ReachesVia.refl.play hok) hw⟩

/-- A worker starts the execution at 10 and pauses before the executor; the task is
delivered again at 20, and the second worker makes the record; the first one goes on. -/
def overtakenDelivery : List (Move Call (Datetime × Datetime)) :=
  approvedRun ++ [.tick (10, 10)] ++ moves 3 (.processNextTask localOperator "c-4") 6 ++
    [.tick (20, 20)] ++ moves 4 (.processNextTask localOperator "c-5") 4 ++
    List.replicate 4 (.act 3)

/-- The first worker completes the workflow at its own time, before the execution. -/
theorem overtakenDelivery_not_chronological :
    ∃ c w, (system sampleEnv).ReachesVia Forward (initial 0 0) c ∧ c.state.stored "w" = some w ∧
      w.status = .completed ∧ w.executionResult.map (·.executedAt) = some 20 ∧
      marks w.transitions .completed = [10] ∧ ¬Chronological w := by
  obtain ⟨hok, h⟩ : (system sampleEnv).Allows Forward (initial 0 0) overtakenDelivery ∧
      (((system sampleEnv).play (initial 0 0) overtakenDelivery).state.stored "w").map
        (fun w => (w.status, w.executionResult.map (·.executedAt),
          marks w.transitions .completed)) = some (.completed, some 20, [10]) := by
    decide +kernel
  obtain ⟨w, hw, h⟩ := Option.map_eq_some_iff.mp h
  obtain ⟨hs, hx, hm⟩ : w.status = .completed ∧ w.executionResult.map (·.executedAt) = some 20 ∧
      marks w.transitions .completed = [10] := by
    simpa using h
  refine ⟨_, w, System.ReachesVia.refl.play hok, hw, hs, hx, hm, fun hchron => ?_⟩
  obtain ⟨result, _, _, ended, hresult, -, -, hended, -, hle, -⟩ := hchron.completed hs
  rw [hresult] at hx
  rw [hm] at hended
  cases hended
  have hx : result.executedAt = 20 := Option.some.inj hx
  rw [hx] at hle
  exact absurd hle (by decide)

end AgenticDelivery.Api
