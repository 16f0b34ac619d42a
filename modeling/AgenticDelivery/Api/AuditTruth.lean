import AgenticDelivery.Api.Accounting
import AgenticDelivery.Api.ApprovedWork

/-! # The audit sink tells the truth

In every interleaving each event of the sink is borne out by the stores, and once
the calls of a run have ended, nothing was stored that the sink does not tell. -/
namespace AgenticDelivery.Api
open AgenticDelivery.Atomic AgenticDelivery.Data AgenticDelivery.Governance AgenticDelivery.Runtime

variable {env : Environment} {c c' : PoolConfig}

/-! ## The sink and the logs -/

/-- The sink holds the notes of the callers, shuffled. -/
theorem Reachable.audit_notes (hc : Reachable env c) :
    (c.state.audit.map AuditEvent.note).Perm (c.threads.flatMap fun t => notes t.log) := by
  obtain ⟨now, utc, h⟩ := hc
  refine h.journal (fun s => s.audit.map AuditEvent.note) noteOf rfl rfl ?_ fun _ _ => rfl
  intro tid op s
  cases op with
  | auditRecord action outcome subject resourceId correlationId =>
    exact List.map_append
  | repositoryCreate w key => exact (List.append_nil _).symm
  | repositoryUpdate w v => exact (List.append_nil _).symm
  | _ => exact (List.append_nil _).symm

/-! ## What a log has shown -/

/-- What an event of a call has shown: the workflow it gave or stored is known, and an
id that was looked up in vain was free when the call began. -/
def Shown (env : Environment) (born : State) (e : CallEvent) (s : State) : Prop :=
  (∀ w, knownOf e = some w → Known env w s) ∧ ∀ id, missedOf e = some id → born.stored id = none

/-- A workflow that an operation has given or stored is stored after it. -/
theorem stored_of_knownOf {s : State} (h : Consistent env s) {tid : Nat} {op : Op} {w : Workflow}
    (hw : knownOf ⟨op, (exec env tid op s).1⟩ = some w) :
    (exec env tid op s).2.stored w.workflowId = some w := by
  cases op with
  | repositoryCreate v key =>
    rcases create_cases h tid v key with ⟨-, he⟩ | ⟨id, u, -, hu, ⟨-, he⟩ | ⟨-, he⟩⟩ <;>
      rw [he] at hw ⊢ <;> cases hw
    · exact insert_stored_self ..
    · obtain ⟨rfl, -⟩ := h.stored hu
      exact hu
  | repositoryGet id =>
    have hs : s.stored id = some w := by
      change knownOf ⟨.repositoryGet id, s.stored id⟩ = some w at hw
      cases hg : s.stored id with
      | none => rw [hg] at hw; cases hw
      | some v => rw [hg] at hw; exact hw
    obtain ⟨rfl, -⟩ := h.stored hs
    exact hs
  | repositoryUpdate v n =>
    rcases update_cases env tid s v n with ⟨he, -⟩ | ⟨_, -, -, he⟩ <;> rw [he] at hw ⊢ <;>
      cases hw
    exact put_stored_self ..
  | _ => cases hw

theorem stored_of_missedOf {s : State} {tid : Nat} {op : Op} {id : String}
    (hid : missedOf ⟨op, (exec env tid op s).1⟩ = some id) : s.stored id = none := by
  cases op with
  | repositoryGet id' =>
    change missedOf ⟨.repositoryGet id', s.stored id'⟩ = some id at hid
    cases hg : s.stored id' with
    | none =>
      rw [hg] at hid
      cases hid
      exact hg
    | some w => rw [hg] at hid; cases hid
  | _ => cases hid

theorem Reachable.shown (hf : Function.Injective env.idFactory) (hc : Reachable env c) {tid : Nat}
    {t : Caller} (ht : c.threads[tid]? = some t) {e : CallEvent} (he : e ∈ t.log) :
    Shown env t.born e c.state := by
  obtain ⟨now, utc, h⟩ := hc
  refine h.logged (Shown env) rfl ?_ ?_ ht he
  · intro c₁ i u op next h₁ hu hr
    have hc₁ : Reachable env c₁ := ⟨now, utc, h₁⟩
    have hc₂ : Reachable env ((system env).advance c₁ i u op next) := by
      have := hc₁.step (.act i)
      rwa [System.step_act hu hr] at this
    refine ⟨fun w hw => ?_, fun id hid => ?_⟩
    · exact (Known.of_stored (hc₂.consistent hf) (stored_of_knownOf (hc₁.consistent hf) hw)).2
    · cases hb : u.born.stored id with
      | none => rfl
      | some w =>
        obtain ⟨w', hw', -⟩ := (((hc₁.safeAt hf).born i u hu).2).stored hb
        exact absurd ((stored_of_missedOf hid).symm.trans hw') nofun
  · rintro c₁ m born e h₁ ⟨hk, ha⟩
    have hc₁ : Reachable env c₁ := ⟨now, utc, h₁⟩
    exact ⟨fun w hw => (hk w hw).evolve (hc₁.evolve hf (System.Reaches.refl.step m)), ha⟩

/-- What a call returns has been stored, and its principal may read it. -/
theorem Reachable.returned (hf : Function.Injective env.idFactory) (hc : Reachable env c)
    {tid : Nat} {t : Caller} (ht : c.threads[tid]? = some t) {w : Workflow}
    (ho : t.rest.outcome = some (.ok w)) : Known env w c.state ∧ t.call.principal.MayRead w := by
  obtain ⟨-, hseen, hmay⟩ := System.ends_of_keeps (hc.accounts hf ht).2 ho
  obtain ⟨e, he, hw⟩ := List.mem_filterMap.mp hseen
  exact ⟨(hc.shown hf ht he).1 w hw, hmay⟩

/-! ## Soundness -/

/-- What a call has noted is borne out, by what it has seen and by what it has stored. -/
theorem Reachable.borne (hf : Function.Injective env.idFactory) (hc : Reachable env c) {tid : Nat}
    {t : Caller} (ht : c.threads[tid]? = some t) {n : Note} (hn : n ∈ notes t.log) :
    n.subject = some t.call.principal.subject ∧ n.correlationId = t.call.correlationId ∧
      Borne env (Known env · c.state) (t.born.stored · = none) t.call n.action n.outcome
        n.resourceId := by
  obtain ⟨x, hx, hnote⟩ := List.mem_filterMap.mp hn
  obtain ⟨before, after, hlog⟩ := List.append_of_mem hx
  have hfits := ((hc.accounts hf ht).1.fits hlog).1
  obtain ⟨op, reply⟩ := x
  cases op with
  | auditRecord action outcome subject resourceId correlationId =>
    obtain ⟨heq, hb⟩ := hfits
    rw [noteOf, heq] at hnote
    obtain rfl := Option.some.inj hnote
    refine ⟨rfl, rfl, ?_⟩
    have mem : ∀ {x : CallEvent}, x ∈ before → x ∈ t.log := by
      intro x hx
      rw [hlog]
      exact List.mem_append_left _ hx
    refine hb.mono (fun w hw => ?_) fun id hid => ?_
    · obtain ⟨y, hy, hw⟩ := List.mem_filterMap.mp hw
      exact (hc.shown hf ht (mem hy)).1 w hw
    · obtain ⟨y, hy, hid⟩ := List.mem_filterMap.mp hid
      exact (hc.shown hf ht (mem hy)).2 id hid
  | repositoryCreate w key =>
    cases reply <;> cases hnote
  | repositoryUpdate w n =>
    cases reply <;> cases hnote
  | _ => cases hnote

/-- What bears an event out: the call of a caller of the run has recorded it, under its
own subject and correlation id, and what the event says is the case in the stores. -/
def BorneOut (env : Environment) (c : PoolConfig) (e : AuditEvent) : Prop :=
  ∃ (tid : Nat) (t : Caller), c.threads[tid]? = some t ∧
    e.subject = some t.call.principal.subject ∧ e.correlationId = t.call.correlationId ∧
    Borne env (Known env · c.state) (t.born.stored · = none) t.call e.action e.outcome e.resourceId

/-- **The audit sink tells the truth.** In every configuration of every run each event of
the sink was recorded by a call of the run, and is one of those that `Borne` lists: the
role it denies was missing, the workflow it names is stored, and has the plan, the
decision, the expiry or the record the event speaks of. -/
theorem audit_borneOut (hf : Function.Injective env.idFactory) (hc : Reachable env c) :
    ∀ e ∈ c.state.audit, BorneOut env c e := by
  intro e he
  have hm := hc.audit_notes.mem_iff.mp (List.mem_map_of_mem (f := AuditEvent.note) he)
  obtain ⟨t, htm, hn⟩ := List.mem_flatMap.mp hm
  obtain ⟨tid, ht⟩ := List.getElem?_of_mem htm
  obtain ⟨hs, hcid, hb⟩ := hc.borne hf ht hn
  exact ⟨tid, t, ht, hs, hcid, hb⟩

/-- The delivery of the examples is recorded, and borne out. -/
theorem audit_borneOut_completedRun :
    ∃ e ∈ ((system sampleEnv).play (initial 0 0) completedRun).state.audit,
      e.outcome = "completed" ∧
        BorneOut sampleEnv ((system sampleEnv).play (initial 0 0) completedRun) e := by
  obtain ⟨e, he⟩ := Option.isSome_iff_exists.mp completedRun_ends.2.1
  have hm := List.mem_of_find?_eq_some he
  have ho := List.find?_some he
  exact ⟨e, hm, of_decide_eq_true ho,
    audit_borneOut sampleId_injective (reachable_play sampleEnv 0 0 completedRun) e hm⟩

/-! ## Completeness -/

/-- The queue takes the task of a known workflow, unless task identifiers collide. -/
theorem enqueue_ok {s : State} {w : Workflow} {task : ExecutionTask} (h : Consistent env s)
    (hd : TaskIdsDistinct s) (hk : Known env w s) (ht : Tasked w task) :
    ∃ t, (s.taskQueue.enqueue task).1 = .ok t := by
  unfold InMemoryTaskQueue.enqueue
  cases hv : s.taskQueue.tasks.get? task.taskId with
  | none => exact ⟨task, rfl⟩
  | some v =>
    obtain ⟨w', hw', hlater⟩ := hk.stored
    obtain ⟨proposal, _, hp, -⟩ := id ht
    rw [ht.taskId] at hv
    obtain ⟨-, -, hv⟩ := tasked_of_taskIdOf h hd hw' hv
    have hsame : v.proposalDigest = task.proposalDigest :=
      (hv.proposalDigest ((hlater.grows hk.life).actionProposal _ hp)).trans
        (ht.proposalDigest hp).symm
    exact ⟨v, by simp only [hsame, ne_eq, not_true_eq_false, if_false]⟩

def refusedOf : CallEvent → Option Failure
  | ⟨.enqueue _, .error e⟩ => some e
  | _ => none

/-- Collisions of task identifiers stay. -/
theorem TaskIdsDistinct.evolve {s s' : State} (h : TaskIdsDistinct s') (he : Evolve env s s') :
    TaskIdsDistinct s := by
  intro id id' w w' hw hw' heq
  obtain ⟨v, hv, -⟩ := he.stored hw
  obtain ⟨v', hv', -⟩ := he.stored hw'
  exact h id id' v v' hv hv' heq

/-- No task of the service is refused by the queue, as long as no two stored workflows
have one task identifier. -/
theorem Reachable.not_refused (hf : Function.Injective env.idFactory) (hc : Reachable env c)
    (hd : TaskIdsDistinct c.state) {tid : Nat} {t : Caller} (ht : c.threads[tid]? = some t) :
    ∀ e ∈ t.log, refusedOf e = none := by
  intro e he
  obtain ⟨now, utc, h⟩ := hc
  refine h.logged (fun _ e s => TaskIdsDistinct s → refusedOf e = none) rfl ?_ ?_ ht he hd
  · intro c₁ i u op next h₁ hu hr hd₁
    have hc₁ : Reachable env c₁ := ⟨now, utc, h₁⟩
    cases op with
    | enqueue task =>
      have hk := (hc₁.accounts hf hu).2
      rw [hr] at hk
      obtain ⟨w, hw, htask⟩ := hk.1
      obtain ⟨x, hx, hw⟩ := List.mem_filterMap.mp hw
      have hev := hc₁.evolve hf (System.Reaches.refl.step (.act i))
      rw [System.step_act hu hr] at hev
      obtain ⟨v, hv⟩ := enqueue_ok (hc₁.consistent hf) (TaskIdsDistinct.evolve hd₁ hev)
        ((hc₁.shown hf hu hx).1 w hw) htask
      change refusedOf ⟨.enqueue task, (c₁.state.taskQueue.enqueue task).1⟩ = none
      rw [hv]
      rfl
    | _ => rfl
  · intro c₁ m _ e h₁ hs hd₁
    exact hs (hd₁.evolve (Reachable.evolve hf ⟨now, utc, h₁⟩ (System.Reaches.refl.step m)))

/-- A caller of the run has stored this version of the workflow. -/
def Written (c : PoolConfig) (w : Workflow) : Prop :=
  ∃ (tid : Nat) (t : Caller), c.threads[tid]? = some t ∧
    (w.announcement.1, w.announcement.2, w.workflowId) ∈ dues t.log

theorem Written.reaches {w : Workflow} (h : Written c w) (hr : (system env).Reaches c c') :
    Written c' w := by
  obtain ⟨tid, t, ht, hd⟩ := h
  obtain ⟨t', ht', he⟩ := hr.extends ht
  obtain ⟨more, hlog⟩ := he.log
  refine ⟨tid, t', ht', ?_⟩
  rw [← hlog, dues_append]
  exact List.mem_append_left _ hd

/-- Every stored version was written by a caller of the run. -/
theorem Reachable.written (hf : Function.Injective env.idFactory) (hc : Reachable env c)
    {id : String} {w : Workflow} (hw : c.state.stored id = some w) : Written c w := by
  refine hc.induct hf (P := fun c => ∀ id w, c.state.stored id = some w → Written c w) ?_ ?_ ?_ ?_
    id w hw
  · intro _ _ id w hw
    cases hw
  · intro c call _ ih id w hw
    have hstep : (system env).Reaches c ((system env).start c call) :=
      System.Reaches.refl.step (.spawn call)
    exact (ih id w hw).reaches hstep
  · intro c tid t op next hc ih ht hr id w hw
    have hstep : (system env).Reaches c ((system env).advance c tid t op next) := by
      rw [← System.step_act ht hr]
      exact System.Reaches.refl.step (.act tid)
    -- what the operation stores, its own caller has written
    have fresh : ∀ {v : Workflow}, dueOf ⟨op, (exec env tid op c.state).1⟩ =
        some (v.announcement.1, v.announcement.2, v.workflowId) →
        Written ((system env).advance c tid t op next) v := by
      intro v hv
      refine ⟨tid, _, (system env).advance_self op next ht, ?_⟩
      change _ ∈ dues (t.log ++ [⟨op, (exec env tid op c.state).1⟩])
      rw [dues_append, dues_cons, hv]
      exact List.mem_append_right _ List.mem_cons_self
    change (exec env tid op c.state).2.stored id = some w at hw
    cases op with
    | repositoryCreate v key =>
      rcases create_cases (hc.consistent hf) tid v key with
        ⟨-, he⟩ | ⟨_, _, -, -, ⟨-, he⟩ | ⟨-, he⟩⟩ <;> rw [he] at hw
      · rw [insert_stored] at hw
        split at hw
        · cases hw
          obtain ⟨r, now, -, -, -, hv, -⟩ := hc.guar hf ht hr
          refine fresh ?_
          rw [he, hv]
          rfl
        · exact (ih id w hw).reaches hstep
      · exact (ih id w hw).reaches hstep
      · exact (ih id w hw).reaches hstep
    | repositoryUpdate v n =>
      rcases update_cases env tid c.state v n with ⟨he, -⟩ | ⟨_, -, -, he⟩ <;> rw [he] at hw
      · exact (ih id w hw).reaches hstep
      · rw [put_stored] at hw
        split at hw
        · cases hw
          refine fresh ?_
          rw [he]
          rfl
        · exact (ih id w hw).reaches hstep
    | _ => exact (ih id w hw).reaches hstep
  · intro c t _ ih id w hw
    have hstep : (system env).Reaches c { c with state := (system env).tick t c.state } :=
      System.Reaches.refl.step (.tick t)
    exact (ih id w hw).reaches hstep

/-- **The audit sink is complete.** Whatever was stored at some moment of a run has its
event in the sink once the calls of the run have ended: a creation, a plan, each
decision, an expiry, the start of an execution and its end. -/
theorem audit_complete (hf : Function.Injective env.idFactory) (hc : Reachable env c)
    (hrun : (system env).Reaches c c') (hended : ∀ t ∈ c'.threads, t.rest.outcome ≠ none)
    (hd : TaskIdsDistinct c'.state) :
    ∀ id w, c.state.stored id = some w → ∃ e ∈ c'.state.audit,
      e.action = w.announcement.1 ∧ e.outcome = w.announcement.2 ∧ e.resourceId = some id := by
  intro id w hw
  have hc' := hc.trans hrun
  obtain ⟨tid, t, ht, hdue⟩ := (hc.written hf hw).reaches hrun
  obtain ⟨o, ho⟩ := Option.ne_none_iff_exists'.mp (hended t (List.mem_of_getElem? ht))
  have hends := System.ends_of_keeps (hc'.accounts hf ht).2 ho
  have howes : Owes t.call t.log [] := by cases o <;> exact hends.1
  rcases howes with ⟨task, e, hm⟩ | hnoted
  · cases hc'.not_refused hf hd ht _ hm
  · have hn := (hnoted _ hdue).resolve_left List.not_mem_nil
    have hm := hc'.audit_notes.mem_iff.mpr
      (List.mem_flatMap.mpr ⟨t, List.mem_of_getElem? ht, hn⟩)
    obtain ⟨e, he, hnote⟩ := List.mem_map.mp hm
    obtain ⟨rfl, -⟩ := (hc.consistent hf).stored hw
    exact ⟨e, he, congrArg Note.action hnote, congrArg Note.outcome hnote,
      congrArg Note.resourceId hnote⟩

/-- All calls of the examples have ended, and the approval that was stored on the way is
in the sink. -/
theorem audit_complete_completedRun :
    ∃ e ∈ ((system sampleEnv).play (initial 0 0) completedRun).state.audit,
      e.action = "workflow.approval" ∧ e.outcome = "approved" ∧ e.resourceId = some "w" := by
  have hrun : (system sampleEnv).Reaches ((system sampleEnv).play (initial 0 0) approvedRun)
      ((system sampleEnv).play (initial 0 0) completedRun) := by
    rw [completedRun, System.play, System.play, List.foldl_append]
    exact System.reaches_play _ _ _
  obtain ⟨-, -, hkeys, hended⟩ := completedRun_ends
  have hs : (((system sampleEnv).play (initial 0 0) approvedRun).state.stored "w").map
      Workflow.announcement = some ("workflow.approval", "approved") := by decide
  obtain ⟨w, hw, ha⟩ := Option.map_eq_some_iff.mp hs
  have h := audit_complete sampleId_injective (reachable_play sampleEnv 0 0 approvedRun) hrun
    (fun t ht hn => by
      have := List.all_eq_true.mp hended t ht
      rw [hn] at this
      cases this)
    (taskIdsDistinct_of_keys hkeys) "w" w hw
  rw [ha] at h
  exact h

end AgenticDelivery.Api
