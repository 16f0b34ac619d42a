import AgenticDelivery.Api.Steps

/-! # What a call promises

`promises` says, for each call, what its operations owe to the log of that call
and to the stores, and what its outcome means. The rules below check a program
against it, one operation at a time. -/
namespace AgenticDelivery.Api
open AgenticDelivery.Atomic AgenticDelivery.Data AgenticDelivery.Governance AgenticDelivery.Runtime
open Service Program

/-! ## Views of a log -/

@[simp] def readOf : CallEvent → Option Workflow
  | ⟨.repositoryGet _, reply⟩ => reply
  | _ => none

@[simp] def writeOf : CallEvent → Option Workflow
  | ⟨.repositoryUpdate _ _, .ok w⟩ => some w
  | _ => none

@[simp] def verdictOf : CallEvent → Option (ProcessingContext × PolicyDecision)
  | ⟨.evaluate context, decision⟩ => some (context, decision)
  | _ => none

@[simp] def ticketOf : CallEvent → Option ToolExecutionResult
  | ⟨.execute _ _ _, .ok result⟩ => some result
  | _ => none

/-- The workflows a call has read. -/
def reads (log : List CallEvent) : List Workflow := log.filterMap readOf

/-- The workflows a call has stored by an update. -/
def writes (log : List CallEvent) : List Workflow := log.filterMap writeOf

/-- The contexts a call has put before the policy, with the answers. -/
def verdicts (log : List CallEvent) : List (ProcessingContext × PolicyDecision) :=
  log.filterMap verdictOf

/-- The records the executor has given to a call. -/
def tickets (log : List CallEvent) : List ToolExecutionResult := log.filterMap ticketOf

section Views
variable (l l' : List CallEvent)

@[simp] theorem reads_append : reads (l ++ l') = reads l ++ reads l' := List.filterMap_append

@[simp] theorem writes_append : writes (l ++ l') = writes l ++ writes l' := List.filterMap_append

@[simp] theorem verdicts_append : verdicts (l ++ l') = verdicts l ++ verdicts l' :=
  List.filterMap_append

@[simp] theorem tickets_append : tickets (l ++ l') = tickets l ++ tickets l' :=
  List.filterMap_append

variable (e : CallEvent)

@[simp] theorem reads_nil : reads [] = [] := rfl

@[simp] theorem reads_cons : reads (e :: l) = (readOf e).toList ++ reads l := by
  simp only [reads, List.filterMap_cons]
  cases readOf e <;> rfl

@[simp] theorem writes_nil : writes [] = [] := rfl

@[simp] theorem writes_cons : writes (e :: l) = (writeOf e).toList ++ writes l := by
  simp only [writes, List.filterMap_cons]
  cases writeOf e <;> rfl

@[simp] theorem verdicts_nil : verdicts [] = [] := rfl

@[simp] theorem verdicts_cons : verdicts (e :: l) = (verdictOf e).toList ++ verdicts l := by
  simp only [verdicts, List.filterMap_cons]
  cases verdictOf e <;> rfl

@[simp] theorem tickets_nil : tickets [] = [] := rfl

@[simp] theorem tickets_cons : tickets (e :: l) = (ticketOf e).toList ++ tickets l := by
  simp only [tickets, List.filterMap_cons]
  cases ticketOf e <;> rfl

end Views

/-! ## The promises -/

/-- A stored value is replaced by one step of the call, from the value that is
current and that the call has seen. -/
def Updates (env : Environment) (call : Call) (log : List CallEvent) (w' : Workflow) (v : Nat)
    (s : State) : Prop :=
  ∃ w, s.stored w'.workflowId = some w ∧ w.stateVersion = v ∧ w ∈ reads log ++ writes log ∧
    Advance env call w w'

/-- How a delivery came to the executor: it read an approved workflow, found it
unexpired at `now` and asked the policy, or it read an executing one and did not. -/
def Cleared (env : Environment) (log : List CallEvent) (w₀ : Workflow) (now : Datetime) : Prop :=
  (w₀.status = .approved ∧ (∃ approval, w₀.approvalDecision = some approval ∧
      now ≤ approval.expiresAt) ∧
    (env.policy (executionContext w₀.processingContext)).executionAllowed = true ∧
    verdicts log =
      [(executionContext w₀.processingContext, env.policy (executionContext w₀.processingContext))])
  ∨ (w₀.status = .executing ∧ verdicts log = [])

/-- The executor is called by an authorised delivery, on the task and the
proposal of a stored workflow that is executing or completed. -/
def Executes (env : Environment) (call : Call) (log : List CallEvent) (task : ExecutionTask)
    (proposal : ToolActionProposal) (now : Datetime) (s : State) : Prop :=
  ∃ principal correlationId w₀ w, call = .processNextTask principal correlationId ∧
    principal.MayProcess ∧ reads log = [w₀] ∧ s.stored task.workflowId = some w ∧
    Lifecycle env w₀ ∧ Later env w₀ w ∧ Tasked w task ∧ w.actionProposal = some proposal ∧
    (w.status = .executing ∨ w.status = .completed) ∧ Cleared env log w₀ now

/-- A workflow is created for an admitted request, under an id that is free. -/
def Creates (env : Environment) (call : Call) (w : Workflow) (key : String) (s : State) : Prop :=
  ∃ r now, call = .create r ∧ r.Admitted env ∧ key = r.idempotencyKey ∧
    w = r.received env w.workflowId now ∧ s.stored w.workflowId = none

/-- What an operation of a call owes, given the log of the call so far. -/
def Guar (env : Environment) (call : Call) (log : List CallEvent) :
    (op : Op) → Reply op → State → State → Prop
  | .repositoryCreate w key, _, s, _ => Creates env call w key s
  | .repositoryUpdate w' v, reply, s, _ => ∀ w, reply = .ok w → w = w' ∧ Updates env call log w' v s
  | .execute task proposal now, _, s, _ => Executes env call log task proposal now s
  | _, _, _, _ => True

/-- `w` is stored, or was and lives on. -/
structure Known (env : Environment) (w : Workflow) (s : State) : Prop where
  life : Lifecycle env w
  stored : ∃ w', s.stored w.workflowId = some w' ∧ Later env w w'

/-- What `create` means by its outcome: the workflow its key is bound to has the
request, or another one. -/
def Created (env : Environment) (r : CreateRequest) (outcome : Except Failure Workflow)
    (s : State) : Prop :=
  match outcome with
  | .ok w => r.Admitted env ∧ w.ownerId = r.principal.subject ∧
      w.request = normalizeRequest r.request ∧ w.requestedLocale = env.lower r.requestedLocale ∧
      s.bound r.principal.subject r.idempotencyKey = some w.workflowId ∧ Known env w s
  | .error e => r.Admitted env → e = keyConflict ∧ ∃ id w,
      s.bound r.principal.subject r.idempotencyKey = some id ∧ s.stored id = some w ∧
      ¬(w.request = normalizeRequest r.request ∧ w.requestedLocale = env.lower r.requestedLocale)

/-- When `principal` might have decided the workflow at the start of the call, it
is decided or expired now. -/
def Settled (principal : Principal) (workflowId : String) (born s : State) : Prop :=
  ∀ w₀, born.stored workflowId = some w₀ → principal.MayDecide w₀ →
    w₀.status = .awaitingApproval → ∃ w, s.stored workflowId = some w ∧ 1 < w.status.rank

/-- What `decide_approval` means by its outcome. The caller read `w₀`; without
an approval on it, the one returned is the caller's own, and otherwise it is the
one that was there. An error on a pending proposal means that it is settled. -/
def DecidedBy (env : Environment) (principal : Principal) (workflowId : String)
    (decision : Decision) (reason key : String) (born : State) (log : List CallEvent)
    (outcome : Except Failure Workflow) (s : State) : Prop :=
  match outcome with
  | .ok w => ∃ w₀ approval, reads log = [w₀] ∧ principal.MayDecide w₀ ∧
      w.workflowId = workflowId ∧ Known env w s ∧
      w.approvalDecision = some approval ∧ approval.decision = decision ∧
      approval.idempotencyKey = key ∧
      (w₀.approvalDecision = none →
        approval.reviewerId = principal.subject ∧ approval.reason = reason) ∧
      (w₀.approvalDecision = none ∨ w = w₀) ∧
      (decision = .approved → taskIdOf workflowId ∈ s.taskQueue.order)
  | .error _ => Settled principal workflowId born s

/-- What the outcome of a call means. -/
def Post (env : Environment) (call : Call) (born : State) (log : List CallEvent)
    (outcome : Except Failure Workflow) (s : State) : Prop :=
  match call with
  | .create r => Created env r outcome s
  | .decideApproval principal workflowId decision reason key _ =>
    DecidedBy env principal workflowId decision reason key born log outcome s
  | _ => True

def promises (env : Environment) (call : Call) (born : State) :
    Spec Op Reply Failure Workflow State where
  guar := Guar env call
  post := Post env call born

/-- The rest of a call keeps the discipline and the promises, from `s` on. -/
abbrev Verified (env : Environment) (tid : Nat) (call : Call) (born : State)
    (p : Service Workflow) (log : List CallEvent) (s : State) : Prop :=
  Safe (exec env) (discipline env) tid (promises env call born) p log s

abbrev Relies (env : Environment) (tid : Nat) (s s' : State) : Prop :=
  (discipline env).Rely tid s s'

/-! ## Rules -/

section Rules
variable {env : Environment} {tid : Nat} {call : Call} {born : State} {log : List CallEvent}
  {s s' : State} {w w' : Workflow}

theorem Known.evolve (h : Known env w s) (he : Evolve env s s') : Known env w s' := by
  obtain ⟨w', hw', hl⟩ := h.stored
  obtain ⟨w'', hw'', hl'⟩ := he.stored hw'
  exact ⟨h.life, w'', hw'', hl.trans hl'⟩

theorem Known.rely (h : Known env w s) (hr : Relies env tid s s') : Known env w s' :=
  h.evolve hr.evolve

/-- Before completion no step but the last brings a ticket. -/
theorem Known.no_ticket (hk : Known env w s) (hs : w.status ≠ .completed)
    (he : w'.executionResult = w.executionResult) (r : ToolExecutionResult)
    (hr : w'.executionResult = some r) : s'.record r.idempotencyKey = some r := by
  rw [he, hk.life.no_ticket hs] at hr
  cases hr

theorem Settled.rely {principal : Principal} {id : String} (h : Settled principal id born s)
    (hr : Relies env tid s s') : Settled principal id born s' := by
  intro w₀ hw₀ hm hs
  obtain ⟨w, hw, hlt⟩ := h w₀ hw₀ hm hs
  obtain ⟨w', hw', hl⟩ := hr.evolve.stored hw
  exact ⟨w', hw', Nat.lt_of_lt_of_le hlt hl.rank_le⟩

/-- A workflow that is not pending now is settled, if it was pending before. -/
theorem Settled.of_stored {principal : Principal} {id : String} (hr : Relies env tid born s)
    (hw : s.stored id = some w) (hs : w.status ≠ .awaitingApproval) :
    Settled principal id born s := by
  intro w₀ hw₀ _ hs₀
  obtain ⟨w', hw', hl⟩ := hr.evolve.stored hw₀
  rw [hw] at hw'
  cases hw'
  refine ⟨w, hw, ?_⟩
  have hle := hl.rank_le
  rw [hs₀] at hle
  have hr : ∀ st : WorkflowState, 1 ≤ st.rank → st ≠ .awaitingApproval → 1 < st.rank := by
    intro st h1 h2
    cases st <;> first | exact absurd rfl h2 | exact absurd h1 (by decide) | decide
  exact hr _ hle hs

theorem Known.of_stored (hc : Consistent env s) {id : String} (hw : s.stored id = some w) :
    w.workflowId = id ∧ Known env w s := by
  obtain ⟨hid, hl, -⟩ := hc.stored hw
  exact ⟨hid, hl, w, by rw [hid]; exact hw, .refl⟩

theorem verified_get {id : String} {f : Option Workflow → Service Workflow}
    (hn : ∀ s', Relies env tid s s' → s'.stored id = none →
      Verified env tid call born (f none) (log ++ [⟨.repositoryGet id, none⟩]) s')
    (hs : ∀ s' w, Relies env tid s s' → s'.stored id = some w →
      Verified env tid call born (f (some w)) (log ++ [⟨.repositoryGet id, some w⟩]) s') :
    Verified env tid call born (repositoryGet id >>= f) log s := by
  refine Safe.query (fun _ => rfl) fun s' hr => ⟨trivial, ?_⟩
  cases hw : s'.stored id with
  | none =>
    have he : (exec env tid (.repositoryGet id) s').1 = none := hw
    rw [he]
    exact hn s' hr hw
  | some w =>
    have he : (exec env tid (.repositoryGet id) s').1 = some w := hw
    rw [he]
    exact hs s' w hr hw

/-- An operation that leaves the stores alone and promises nothing. -/
theorem verified_quiet {op : Op} {f : Reply op → Service Workflow}
    (hg : ∀ s r s', Guar env call log op r s s') (hq : ∀ s, Quiet s (exec env tid op s).2)
    (h : ∀ s', Relies env tid s s' → Verified env tid call born (f (exec env tid op s').1)
      (log ++ [⟨op, (exec env tid op s').1⟩]) (exec env tid op s').2) :
    Verified env tid call born (port op >>= f) log s :=
  Safe.call fun s' hr => ⟨(hq s').kept hr.inv, hg _ _ _, h s' hr⟩

theorem Quiet.refl (s : State) : Quiet s s := ⟨rfl, rfl, rfl, List.prefix_rfl, List.prefix_rfl⟩

theorem verified_evaluate {context : ProcessingContext} {f : PolicyDecision → Service Workflow}
    (h : ∀ s', Relies env tid s s' → Verified env tid call born (f (env.policy context))
      (log ++ [⟨.evaluate context, env.policy context⟩]) s') :
    Verified env tid call born (evaluate context >>= f) log s :=
  verified_quiet (fun _ _ _ => trivial) Quiet.refl h

theorem verified_classify {text : String} {declared : Option (Finset DataCategory)}
    {f : DataProfile → Service Workflow}
    (h : ∀ s', Relies env tid s s' → Verified env tid call born (f (env.classifier text declared))
      (log ++ [⟨.classify text declared, env.classifier text declared⟩]) s') :
    Verified env tid call born (classify text declared >>= f) log s :=
  verified_quiet (fun _ _ _ => trivial) Quiet.refl h

theorem verified_now {f : Datetime → Service Workflow}
    (h : ∀ s', Relies env tid s s' →
      Verified env tid call born (f s'.now) (log ++ [⟨.nowFactory, s'.now⟩]) s') :
    Verified env tid call born (nowFactory >>= f) log s :=
  verified_quiet (fun _ _ _ => trivial) Quiet.refl h

theorem verified_utcNow {f : Datetime → Service Workflow}
    (h : ∀ s', Relies env tid s s' →
      Verified env tid call born (f s'.utc) (log ++ [⟨.utcNow, s'.utc⟩]) s') :
    Verified env tid call born (utcNow >>= f) log s :=
  verified_quiet (fun _ _ _ => trivial) Quiet.refl h

/-- An audit event changes nothing a caller relies on. -/
theorem verified_audit {action outcome correlationId : String} {subject resourceId : Option String}
    {f : Unit → Service Workflow}
    (h : ∀ s', Relies env tid s s' → Verified env tid call born (f ())
      (log ++ [⟨.auditRecord action outcome subject resourceId correlationId, ()⟩]) s') :
    Verified env tid call born
      (auditRecord action outcome subject resourceId correlationId >>= f) log s := by
  have hq : ∀ s, Quiet s
      (exec env tid (.auditRecord action outcome subject resourceId correlationId) s).2 :=
    fun s => ⟨rfl, rfl, rfl, List.prefix_rfl, List.prefix_append _ _⟩
  exact verified_quiet (fun _ _ _ => trivial) hq fun s' hr =>
    h _ (hr.trans ((hq s').rely hr.inv))

theorem verified_runtimePlan {planningInput : PlanningInput}
    {f : Except RuntimeError PlanningResult → Service Workflow}
    (h : ∀ s' n, Relies env tid s s' → Verified env tid call born (f (env.runtime n planningInput))
      (log ++ [⟨.runtimePlan planningInput, env.runtime n planningInput⟩]) s') :
    Verified env tid call born (runtimePlan planningInput >>= f) log s := by
  have hq : ∀ s, Quiet s (exec env tid (.runtimePlan planningInput) s).2 :=
    fun s => ⟨rfl, rfl, rfl, List.prefix_rfl, List.prefix_rfl⟩
  exact verified_quiet (fun _ _ _ => trivial) hq fun s' hr =>
    h _ _ (hr.trans ((hq s').rely hr.inv))

/-- `update` of a known workflow by one step: it fails because the stored value
has moved on, or it replaces the very value the step starts from. -/
theorem verified_update {f : Workflow → Service Workflow} (hk : Known env w s)
    (hread : w ∈ reads log ++ writes log) (ha : Advance env call w w')
    (hx : ∀ r, w'.executionResult = some r → s.record r.idempotencyKey = some r)
    (hstale : ∀ s' w₁, Relies env tid s s' → s'.stored w.workflowId = some w₁ → Later env w w₁ →
      w₁ ≠ w → Post env call born
        (log ++ [⟨.repositoryUpdate w' w.stateVersion, .error staleUpdate⟩])
        (.error staleUpdate) s')
    (hok : ∀ s', Relies env tid s s' → Consistent env (s'.put w') →
      s'.stored w.workflowId = some w →
      Verified env tid call born (f w')
        (log ++ [⟨.repositoryUpdate w' w.stateVersion, .ok w'⟩]) (s'.put w')) :
    Verified env tid call born (repositoryUpdate w' w.stateVersion >>= f) log s := by
  have hid : w'.workflowId = w.workflowId := (hk.life.grows ha).workflowId
  refine Safe.call fun s' hr => ?_
  obtain ⟨w₁, hw₁, hl⟩ := (hk.rely hr).stored
  rcases update_cases env tid s' w' w.stateVersion with ⟨he, hv⟩ | ⟨w₂, hw₂, hv, he⟩ <;> rw [he]
  · refine ⟨.refl hr.inv, (fun _ h => by cases h), fun s'' hr' => ?_⟩
    obtain ⟨w₃, hw₃, hl'⟩ := hr'.evolve.stored hw₁
    refine hstale s'' w₃ (hr.trans hr') hw₃ (hl.trans hl') ?_
    rintro rfl
    rcases hl.eq_or_version_lt with rfl | hlt
    · exact hv _ (by rw [hid]; exact hw₁) rfl
    · rcases hl'.eq_or_version_lt with rfl | hlt' <;> omega
  · rw [hid, hw₁] at hw₂
    cases hw₂
    have hw : w₁ = w := hl.eq_of_version hv
    subst hw
    have hw' : s'.stored w'.workflowId = some w₁ := by rw [hid]; exact hw₁
    have hkept : (discipline env).Kept tid s' (s'.put w') :=
      kept_put hr.inv hw' ha fun r h => hr.evolve.record (hx r h)
    refine ⟨hkept, ?_, hok s' hr hkept.inv hw₁⟩
    intro v hv'
    cases hv'
    exact ⟨rfl, w₁, hw', rfl, hread, ha⟩

/-- `enqueue` of the task of a known workflow: the task is in the order afterwards. -/
theorem verified_enqueue {task : ExecutionTask} {f : ExecutionTask → Service Workflow}
    (hk : Known env w s) (hid : task.workflowId = w.workflowId) (ht : Tasked w task)
    (herr : ∀ s' e, Relies env tid s s' →
      Post env call born (log ++ [⟨.enqueue task, .error e⟩]) (.error e) s')
    (h : ∀ s' t, Relies env tid s s' → task.taskId ∈ s'.taskQueue.order →
      Verified env tid call born (f t) (log ++ [⟨.enqueue task, .ok t⟩]) s') :
    Verified env tid call born (enqueue task >>= f) log s := by
  refine Safe.call fun s1 hr => ?_
  obtain ⟨w₁, hw₁, hl⟩ := (hk.rely hr).stored
  have hkept : (discipline env).Kept tid s1 (exec env tid (.enqueue task) s1).2 :=
    kept_enqueue hr.inv (by rw [hid]; exact hw₁) (ht.mono (hl.grows hk.life))
  have hmem := enqueue_mem hr.inv tid task
  have hr' : Relies env tid s (exec env tid (.enqueue task) s1).2 :=
    hr.trans ⟨hkept.inv, hkept.evolve, fun _ hi hn => ⟨hi, hn⟩⟩
  refine ⟨hkept, trivial, ?_⟩
  cases he : (exec env tid (.enqueue task) s1).1 with
  | error e => exact fun s2 hr2 => herr s2 e (hr'.trans hr2)
  | ok t => exact h _ t hr' hmem

/-- A claimed task is the task of a stored workflow. -/
theorem verified_claimNext {f : Option ExecutionTask → Service Workflow}
    (hn : ∀ s', Relies env tid s s' →
      Verified env tid call born (f none) (log ++ [⟨.claimNext, .ok none⟩]) s')
    (hs : ∀ s' t w, Relies env tid s s' → s'.stored t.workflowId = some w → Tasked w t →
      Verified env tid call born (f (some t)) (log ++ [⟨.claimNext, .ok (some t)⟩]) s') :
    Verified env tid call born (claimNext >>= f) log s := by
  refine Safe.call fun s1 hr => ?_
  have hkept : (discipline env).Kept tid s1 (exec env tid .claimNext s1).2 :=
    kept_claimNext hr.inv
  have hr' : Relies env tid s (exec env tid .claimNext s1).2 :=
    hr.trans ⟨hkept.inv, hkept.evolve, fun _ hi hn => ⟨hi, hn⟩⟩
  refine ⟨hkept, trivial, ?_⟩
  rcases claimNext_cases hr.inv tid with ⟨-, he⟩ | ⟨k, t, t', -, -, -, he⟩
  · rw [he] at hr' ⊢
    exact hn _ hr'
  · have hok : (exec env tid .claimNext s1).1 = .ok (some t') := by rw [he]
    obtain ⟨w, hw, ht⟩ := claimNext_ok hr.inv hok
    rw [he] at hr' ⊢
    exact hs _ t' w hr' hw ht

/-- `complete` for a workflow that is completed or expired. -/
theorem verified_complete {taskId : String} {f : Unit → Service Workflow}
    (hid : taskId = taskIdOf w.workflowId) (hk : Known env w s)
    (hs : w.status = .completed ∨ w.status = .expired)
    (h : ∀ s', Relies env tid s s' →
      Verified env tid call born (f ()) (log ++ [⟨.complete taskId, ()⟩]) s') :
    Verified env tid call born (complete taskId >>= f) log s := by
  subst hid
  refine Safe.call fun s1 hr => ?_
  obtain ⟨w₁, hw₁, hl⟩ := (hk.rely hr).stored
  have hf : w.status.Final := hs.elim (fun h => .inr (.inr h)) fun h => .inr (.inl h)
  have hw : w₁ = w := hl.eq_of_final hf
  subst hw
  have hkept : (discipline env).Kept tid s1
      (exec env tid (.complete (taskIdOf w₁.workflowId)) s1).2 := kept_complete hr.inv hw₁ hs
  exact ⟨hkept, trivial,
    h _ (hr.trans ⟨hkept.inv, hkept.evolve, fun _ hi hn => ⟨hi, hn⟩⟩)⟩

/-- `execute` for a workflow that is executing: the record is there afterwards. -/
theorem verified_execute {task : ExecutionTask} {proposal : ToolActionProposal} {now : Datetime}
    {f : ToolExecutionResult → Service Workflow} {principal : Principal} {correlationId : String}
    {w₀ : Workflow} (hcall : call = .processNextTask principal correlationId)
    (hmay : principal.MayProcess) (hread : reads log = [w₀]) (h₀ : Lifecycle env w₀)
    (hl₀ : Later env w₀ w) (hclear : Cleared env log w₀ now) (hk : Known env w s)
    (hs : w.status = .executing) (ht : Tasked w task) (hp : w.actionProposal = some proposal)
    (h : ∀ s' r, Relies env tid s s' → s'.record r.idempotencyKey = some r →
      r.proposalDigest = proposal.proposalDigest → r.idempotencyKey = task.idempotencyKey →
      Verified env tid call born (f r) (log ++ [⟨.execute task proposal now, .ok r⟩]) s') :
    Verified env tid call born (execute task proposal now >>= f) log s := by
  refine Safe.call fun s1 hr => ?_
  obtain ⟨w₁, hw₁, hl⟩ := (hk.rely hr).stored
  have hg := hl.grows hk.life
  rw [← ht.workflowId] at hw₁
  have hs₁ := hl.of_executing hs
  have ht₁ := ht.mono hg
  have hp₁ := hg.actionProposal _ hp
  have hkept : (discipline env).Kept tid s1 (exec env tid (.execute task proposal now) s1).2 :=
    kept_execute hr.inv hw₁ ht₁ hp₁ hs₁ now
  obtain ⟨r, hok, hrec, hd, hkey⟩ := execute_ok hr.inv hw₁ ht₁ hp₁ hs₁ tid now
  refine ⟨hkept, ?_, ?_⟩
  · exact ⟨principal, correlationId, w₀, w₁, hcall, hmay, hread, hw₁, h₀, hl₀.trans hl, ht₁, hp₁,
      hs₁, hclear⟩
  · rw [hok]
    exact h _ r (hr.trans ⟨hkept.inv, hkept.evolve, fun _ hi hn => ⟨hi, hn⟩⟩) hrec hd hkey

/-- The id factory gives an id that nothing is stored under. -/
theorem verified_idFactory (hf : Function.Injective env.idFactory) {f : String → Service Workflow}
    (h : ∀ s' n, Relies env tid s s' → s'.issued[n]? = some tid →
      s'.stored (env.idFactory n) = none →
      Verified env tid call born (f (env.idFactory n))
        (log ++ [⟨.idFactory, env.idFactory n⟩]) s') :
    Verified env tid call born (idFactory >>= f) log s := by
  have hq : ∀ s, Quiet s (exec env tid .idFactory s).2 :=
    fun s => ⟨rfl, rfl, rfl, List.prefix_append _ _, List.prefix_rfl⟩
  refine verified_quiet (fun _ _ _ => trivial) hq fun s1 hr => ?_
  refine h _ s1.issued.length (hr.trans ((hq s1).rely hr.inv)) ?_ ?_
  · exact List.getElem?_concat_length
  · cases hs : s1.stored (env.idFactory s1.issued.length) with
    | none => exact hs
    | some w =>
      obtain ⟨-, -, n, hn, he⟩ := hr.inv.stored hs
      have := hf he
      omega

/-- `create` with an id the caller owns: the key is known, with the same request
or another one, or the workflow is stored. -/
theorem verified_create (hf : Function.Injective env.idFactory) {r : CreateRequest} {n : Nat}
    {now : Datetime} {f : Workflow → Service Workflow} (hcall : call = .create r)
    (ha : r.Admitted env) (hi : s.issued[n]? = some tid) (hn : s.stored (env.idFactory n) = none)
    (hw : w = r.received env (env.idFactory n) now)
    (herr : ∀ s' id existing, Relies env tid s s' →
      s'.bound r.principal.subject r.idempotencyKey = some id → s'.stored id = some existing →
      ¬SameRequest existing w → Post env call born
        (log ++ [⟨.repositoryCreate w r.idempotencyKey, .error keyConflict⟩])
        (.error keyConflict) s')
    (hold : ∀ s' id existing, Relies env tid s s' →
      s'.bound r.principal.subject r.idempotencyKey = some id → s'.stored id = some existing →
      SameRequest existing w → Verified env tid call born (f existing)
        (log ++ [⟨.repositoryCreate w r.idempotencyKey, .ok existing⟩]) s')
    (hnew : ∀ s', Relies env tid s s' → Consistent env (s'.insert w r.idempotencyKey) →
      Verified env tid call born (f w)
        (log ++ [⟨.repositoryCreate w r.idempotencyKey, .ok w⟩]) (s'.insert w r.idempotencyKey)) :
    Verified env tid call born (repositoryCreate w r.idempotencyKey >>= f) log s := by
  subst hw
  refine Safe.call fun s1 hr => ?_
  obtain ⟨hi1, hn1⟩ := hr.own n hi hn
  have hguar : Creates env call (r.received env (env.idFactory n) now) r.idempotencyKey s1 :=
    ⟨r, now, hcall, ha, rfl, rfl, hn1⟩
  rcases create_cases hr.inv tid (r.received env (env.idFactory n) now) r.idempotencyKey with
    ⟨hb, he⟩ | ⟨id, existing, hb, hst, ⟨hsame, he⟩ | ⟨hdiff, he⟩⟩ <;> rw [he]
  · have hkept : (discipline env).Kept tid s1
        (s1.insert (r.received env (env.idFactory n) now) r.idempotencyKey) :=
      kept_insert hf hr.inv ha hi1 hn1 hb
    exact ⟨hkept, hguar, hnew s1 hr hkept.inv⟩
  · exact ⟨.refl hr.inv, hguar, hold s1 id existing hr hb hst hsame⟩
  · refine ⟨.refl hr.inv, hguar, fun s2 hr2 => ?_⟩
    obtain ⟨w', hw', hl⟩ := hr2.evolve.stored hst
    have hg := hl.grows (hr.inv.stored hst).2.1
    refine herr s2 id w' (hr.trans hr2) (hr2.evolve.bound hb) hw' fun hsame => hdiff ?_
    exact ⟨hg.request.symm.trans hsame.1, hg.requestedLocale.symm.trans hsame.2⟩

end Rules

end AgenticDelivery.Api
