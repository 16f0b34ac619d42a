import AgenticDelivery.Api.AuditTruth

/-! # Logs in hindsight

What the replies in the log of a caller say about a configuration in which it has
ended. An update is refused when another caller has replaced the version it was
computed from, and each version is replaced once. -/
namespace AgenticDelivery.Api
open AgenticDelivery.Atomic AgenticDelivery.Data AgenticDelivery.Governance AgenticDelivery.Runtime
open Service

variable {env : Environment} {c c' : PoolConfig} {tid i j v : Nat} {t : Caller} {id : String}
  {e : CallEvent} {task : ExecutionTask}

/-! ## Replaced versions -/

/-- The event replaces the version `v` of the workflow `id`. -/
def Replaces (id : String) (v : Nat) : CallEvent → Prop
  | ⟨.repositoryUpdate w expected, .ok _⟩ => w.workflowId = id ∧ expected = v
  | _ => False

/-- Caller `i` has replaced the version `v` of the workflow `id`. -/
def Replaced (c : PoolConfig) (i : Nat) (id : String) (v : Nat) : Prop :=
  ∃ t, c.threads[i]? = some t ∧ ∃ e ∈ t.log, Replaces id v e

/-- Another caller than `tid` has replaced the version `v` of the workflow `id`. -/
def Overtaken (c : PoolConfig) (tid : Nat) (id : String) (v : Nat) : Prop :=
  ∃ i ≠ tid, Replaced c i id v

theorem Replaced.reaches (h : Replaced c i id v) (hr : (system env).Reaches c c') :
    Replaced c' i id v := by
  obtain ⟨t, ht, e, he, hv⟩ := h
  obtain ⟨t', ht', hext⟩ := hr.extends ht
  exact ⟨t', ht', e, hext.log.subset he, hv⟩

/-- The next operation of a caller replaces nothing and keeps what is stored, or it replaces
a stored version by one step. -/
theorem Reachable.replacing_step (hf : Function.Injective env.idFactory) (hc : Reachable env c)
    {op : Op} {next : Reply op → Service Workflow} (ht : c.threads[tid]? = some t)
    (hr : t.rest = .call op next) :
    ((∀ id v, ¬Replaces id v ⟨op, (exec env tid op c.state).1⟩) ∧
      ∀ id w, c.state.stored id = some w → (exec env tid op c.state).2.stored id = some w) ∨
    ∃ w w', c.state.stored w'.workflowId = some w ∧ Advance env t.call w w' ∧
      (∀ id v, Replaces id v ⟨op, (exec env tid op c.state).1⟩ ↔
        w'.workflowId = id ∧ w.stateVersion = v) ∧
      (exec env tid op c.state).2 = c.state.put w' := by
  have hg := hc.guar hf ht hr
  cases op with
  | repositoryUpdate w' n =>
    rcases update_cases env tid c.state w' n with ⟨he, -⟩ | ⟨w, hw, hn, he⟩
    · exact .inl ⟨fun _ _ h => by rw [he] at h; exact h, fun _ _ h => by rw [he]; exact h⟩
    · obtain ⟨-, w₀, hw₀, -, -, ha⟩ := hg w' (by rw [he])
      cases hw.symm.trans hw₀
      subst hn
      rw [he]
      exact .inr ⟨w, w', hw, ha, fun _ _ => .rfl, rfl⟩
  | repositoryCreate w key =>
    obtain ⟨_, _, -, -, -, -, hfree⟩ := hg
    refine .inl ⟨fun _ _ h => h, fun id v hv => ?_⟩
    rcases create_cases (hc.consistent hf) tid w key with
      ⟨-, he⟩ | ⟨_, _, -, -, ⟨-, he⟩ | ⟨-, he⟩⟩ <;> rw [he]
    · rw [insert_stored, if_neg]
      · exact hv
      · rintro rfl
        cases hfree.symm.trans hv
    · exact hv
    · exact hv
  | _ => exact .inl ⟨fun _ _ h => h, fun _ _ h => h⟩

/-- A replaced version is older than the stored one. -/
theorem Replaced.older (hf : Function.Injective env.idFactory) (hc : Reachable env c)
    (h : Replaced c i id v) : ∃ w, c.state.stored id = some w ∧ v < w.stateVersion := by
  obtain ⟨t, ht, e, he, hv⟩ := h
  obtain ⟨now, utc, hrun⟩ := hc
  refine hrun.logged (fun _ e s => Replaces id v e → ∃ w, s.stored id = some w ∧
    v < w.stateVersion) rfl ?_ ?_ ht he hv
  · intro c₁ tid t op next h₁ ht hr hv
    rcases Reachable.replacing_step hf ⟨now, utc, h₁⟩ ht hr with ⟨hno, -⟩ | ⟨w, w', -, ha, hiff, hx⟩
    · exact absurd hv (hno id v)
    · obtain ⟨rfl, rfl⟩ := (hiff id v).mp hv
      exact ⟨w', (congrArg (State.stored · _) hx).trans (put_stored_self ..), ha.version_lt⟩
  · intro c₁ m _ e h₁ ih hv
    obtain ⟨w, hw, hlt⟩ := ih hv
    obtain ⟨w', hw', hl⟩ :=
      (Reachable.evolve hf ⟨now, utc, h₁⟩ (System.Reaches.refl.step m)).stored hw
    refine ⟨w', hw', ?_⟩
    rcases hl.eq_or_version_lt with rfl | hlt'
    · exact hlt
    · exact hlt.trans hlt'

/-- After an operation a version was replaced before, or by the operation. -/
theorem replaced_advance {op : Op} {next : Reply op → Service Workflow}
    (ht : c.threads[tid]? = some t) (h : Replaced ((system env).advance c tid t op next) i id v) :
    Replaced c i id v ∨ i = tid ∧ Replaces id v ⟨op, (exec env tid op c.state).1⟩ := by
  obtain ⟨u, hu, e, he, hv⟩ := h
  rcases System.advance_threads ht hu with ⟨rfl, rfl⟩ | ⟨-, hu⟩
  · rcases List.mem_append.mp he with he | he
    · exact .inl ⟨t, ht, e, he, hv⟩
    · rw [List.mem_singleton.mp he] at hv
      exact .inr ⟨rfl, hv⟩
  · exact .inl ⟨u, hu, e, he, hv⟩

/-- **A version is replaced once.** -/
theorem Reachable.replaced_once (hf : Function.Injective env.idFactory) (hc : Reachable env c)
    (hi : Replaced c i id v) (hj : Replaced c j id v) : i = j := by
  refine hc.induct hf (P := fun c => ∀ i j, Replaced c i id v → Replaced c j id v → i = j)
    ?_ ?_ ?_ ?_ i j hi hj
  · rintro now utc i j ⟨t, ht, -⟩ -
    simp [initial] at ht
  · intro c call _ ih i j hi hj
    have old : ∀ {i}, Replaced ((system env).start c call) i id v → Replaced c i id v := by
      rintro i ⟨t, ht, e, he, hv⟩
      rcases System.start_threads ht with ht | ⟨-, rfl⟩
      · exact ⟨t, ht, e, he, hv⟩
      · cases he
    exact ih i j (old hi) (old hj)
  · intro c tid t op next hc ih ht hr i j hi hj
    -- the version an operation replaces is current, one that was replaced is not
    have fresh : ∀ {i}, Replaced c i id v →
        ¬Replaces id v ⟨op, (exec env tid op c.state).1⟩ := by
      intro i hold hnew
      obtain ⟨w', hw', hlt⟩ := hold.older hf hc
      rcases hc.replacing_step hf ht hr with ⟨hno, -⟩ | ⟨w, _, hw, -, hiff, -⟩
      · exact hno id v hnew
      · obtain ⟨rfl, rfl⟩ := (hiff id v).mp hnew
        cases hw.symm.trans hw'
        exact Nat.lt_irrefl _ hlt
    rcases replaced_advance ht hi with hi | ⟨hi, hi'⟩
    · rcases replaced_advance ht hj with hj | ⟨-, hj'⟩
      · exact ih i j hi hj
      · exact absurd hj' (fresh hi)
    · rcases replaced_advance ht hj with hj | ⟨hj, -⟩
      · exact absurd hi' (fresh hj)
      · exact hi.trans hj.symm
  · exact fun c t _ ih => ih

/-- A workflow that a call has seen is stored until it is replaced. -/
theorem Reachable.stored_or_replaced (hf : Function.Injective env.idFactory)
    (hc : Reachable env c) (ht : c.threads[tid]? = some t) {w : Workflow} (hw : w ∈ seen t.log) :
    c.state.stored w.workflowId = some w ∨ ∃ i, Replaced c i w.workflowId w.stateVersion := by
  obtain ⟨e, he, hk⟩ := List.mem_filterMap.mp hw
  obtain ⟨before, after, hlog⟩ := List.append_of_mem he
  have hsofar : before ++ [e] <+: t.log :=
    ⟨after, by rw [hlog, List.append_assoc, List.singleton_append]⟩
  obtain ⟨now, utc, h⟩ := hc
  refine h.traced (fun _ _ e c => knownOf e = some w → c.state.stored w.workflowId = some w ∨
    ∃ i, Replaced c i w.workflowId w.stateVersion) rfl ?_ ?_ ht hsofar hk
  · intro c₁ tid t op next h₁ _ _ hk
    exact .inl (stored_of_knownOf (Reachable.consistent hf ⟨now, utc, h₁⟩) hk)
  · intro c₁ m _ _ _ h₁ ih hk
    have hc₁ : Reachable env c₁ := ⟨now, utc, h₁⟩
    rcases ih hk with hw | ⟨i, hi⟩
    · rcases (system env).step_cases c₁ m with
        hs | ⟨call, hs⟩ | ⟨tid, t, op, next, ht, hr, hs⟩ | ⟨_, hs⟩ <;> rw [hs]
      · exact .inl hw
      · exact .inl hw
      · rcases hc₁.replacing_step hf ht hr with ⟨-, hkeep⟩ | ⟨w₁, w', hw₁, -, hiff, hx⟩
        · exact .inl (hkeep _ _ hw)
        by_cases hid : w'.workflowId = w.workflowId
        · rw [hid] at hw₁
          cases hw.symm.trans hw₁
          exact .inr ⟨tid, _, (system env).advance_self op next ht, _,
            List.mem_append_right _ List.mem_cons_self, (hiff _ _).mpr ⟨hid, rfl⟩⟩
        · refine .inl ((congrArg (State.stored · _) hx).trans ?_)
          rw [put_stored, if_neg (Ne.symm hid)]
          exact hw
      · exact .inl hw
    · exact .inr ⟨i, hi.reaches (System.Reaches.refl.step m)⟩

/-- The update at `e` was refused, from a version of `w` that the call had seen before. -/
def RefusedUpdate (w : Workflow) (before : List CallEvent) (e : CallEvent) : Prop :=
  w ∈ seen before ∧ ∃ w' error, w'.workflowId = w.workflowId ∧
    e = ⟨.repositoryUpdate w' w.stateVersion, .error error⟩

/-- **An update is refused when its version was replaced before.** -/
theorem Reachable.replaced_of_refused (hf : Function.Injective env.idFactory)
    (hc : Reachable env c) (ht : c.threads[tid]? = some t) {before : List CallEvent} {w : Workflow}
    (he : before ++ [e] <+: t.log) (h : RefusedUpdate w before e) :
    ∃ i, Replaced c i w.workflowId w.stateVersion := by
  obtain ⟨now, utc, hrun⟩ := hc
  refine hrun.traced (fun _ before e c => RefusedUpdate w before e →
    ∃ i, Replaced c i w.workflowId w.stateVersion) rfl ?_ ?_ ht he h
  · rintro c₁ tid t op next h₁ ht hr ⟨hseen, w', error, hid, hx⟩
    have hc₁ : Reachable env c₁ := ⟨now, utc, h₁⟩
    rcases hc₁.stored_or_replaced hf ht hseen with hs | ⟨i, hi⟩
    · cases op with
      | repositoryUpdate w'' n =>
        change (⟨_, (exec env tid (.repositoryUpdate w'' n) c₁.state).1⟩ : CallEvent) = _ at hx
        rcases update_cases env tid c₁.state w'' n with ⟨he, hne⟩ | ⟨_, -, -, he⟩ <;>
          rw [he] at hx <;> cases hx
        exact absurd rfl (hne w (by rw [hid]; exact hs))
      | _ => cases hx
    · refine ⟨i, ?_⟩
      rw [← System.step_act ht hr]
      exact hi.reaches (System.Reaches.refl.step (.act tid))
  · intro c₁ m _ _ _ _ ih hx
    obtain ⟨i, hi⟩ := ih hx
    exact ⟨i, hi.reaches (System.Reaches.refl.step m)⟩

/-! ## Bound tasks -/

theorem Evolve.misbound {s s' : State} (he : Evolve env s s') (h : s.Misbound task) :
    s'.Misbound task := by
  obtain ⟨t, ht, hd⟩ := h
  obtain ⟨_, ht'⟩ := he.queued ht
  exact ⟨_, ht', hd⟩

/-- The queue's answer to a task says whether it is misbound, from then on. -/
def Enlists (e : CallEvent) (s : State) : Prop :=
  ∀ task r, e = ⟨.enqueue task, r⟩ →
    ((∃ error, r = .error error) → s.Misbound task) ∧
    ((∃ u, r = .ok u) →
      ∃ t, s.taskQueue.tasks.get? task.taskId = some t ∧ t.proposalDigest = task.proposalDigest)

theorem Reachable.enlists (hf : Function.Injective env.idFactory) (hc : Reachable env c)
    (ht : c.threads[tid]? = some t) (he : e ∈ t.log) : Enlists e c.state := by
  obtain ⟨now, utc, hrun⟩ := hc
  refine hrun.logged (fun _ => Enlists) rfl ?_ ?_ ht he
  · intro c₁ tid t op next h₁ ht hr task r hx
    cases hx
    change ((∃ error, (c₁.state.taskQueue.enqueue task).1 = .error error) →
      (c₁.state.queueOn .approved task).Misbound task) ∧
      ((∃ u, (c₁.state.taskQueue.enqueue task).1 = .ok u) →
        ∃ t, (c₁.state.queueOn .approved task).taskQueue.tasks.get? task.taskId = some t ∧
          t.proposalDigest = task.proposalDigest)
    by_cases hm : c₁.state.Misbound task
    · rw [queueOn_misbound hm, enqueue_misbound hm]
      refine ⟨fun _ => hm, ?_⟩
      rintro ⟨_, h⟩
      cases h
    · obtain ⟨u, hu⟩ := enqueue_clear hm
      rw [hu]
      refine ⟨?_, fun _ => queueOn_clear hm⟩
      rintro ⟨_, h⟩
      cases h
  · intro c₁ m _ e h₁ ih task r hx
    have hev := Reachable.evolve hf ⟨now, utc, h₁⟩ (System.Reaches.refl.step m)
    obtain ⟨hbad, hok⟩ := ih task r hx
    refine ⟨fun h => hev.misbound (hbad h), fun h => ?_⟩
    obtain ⟨t, ht, hd⟩ := hok h
    obtain ⟨_, ht'⟩ := hev.queued ht
    exact ⟨_, ht', hd⟩

/-! ## Claimed tasks -/

/-- A claimed task belongs to a stored workflow. -/
def Claims (e : CallEvent) (s : State) : Prop :=
  ∀ task, e = ⟨.claimNext, .ok (some task)⟩ →
    ∃ w, s.stored task.workflowId = some w ∧ Tasked w task

theorem Reachable.claims (hf : Function.Injective env.idFactory) (hc : Reachable env c)
    (ht : c.threads[tid]? = some t) (he : e ∈ t.log) : Claims e c.state := by
  obtain ⟨now, utc, hrun⟩ := hc
  refine hrun.logged (fun _ => Claims) rfl ?_ ?_ ht he
  · intro c₁ tid t op next h₁ ht hr task hx
    have hc₁ : Consistent env c₁.state := Reachable.consistent hf ⟨now, utc, h₁⟩
    cases op with
    | claimNext =>
      change (⟨_, (exec env tid .claimNext c₁.state).1⟩ : CallEvent) = _ at hx
      change ∃ w, (exec env tid .claimNext c₁.state).2.stored _ = some w ∧ _
      rcases claimNext_cases hc₁ tid with ⟨-, he⟩ | ⟨k, u, u', -, hu, hu', he⟩ <;>
        rw [he] at hx ⊢ <;> cases hx
      obtain ⟨-, w, hw, htw⟩ := hc₁.queued hu
      rw [hu']
      exact ⟨w, hw, htw.delivered _⟩
    | _ => cases hx
  · intro c₁ m _ e h₁ ih task hx
    have hc₁ : Reachable env c₁ := ⟨now, utc, h₁⟩
    obtain ⟨w, hw, htw⟩ := ih task hx
    obtain ⟨w', hw', hl⟩ := (hc₁.evolve hf (System.Reaches.refl.step m)).stored hw
    exact ⟨w', hw', htw.mono (hl.grows ((hc₁.consistent hf).stored hw).2.1)⟩

/-- A delivery finds the workflow of the task it has claimed. -/
theorem Reachable.delivers (hf : Function.Injective env.idFactory) (hc : Reachable env c)
    (ht : c.threads[tid]? = some t) {before : List CallEvent} {found : Option Workflow}
    (hclaim : ⟨.claimNext, .ok (some task)⟩ ∈ before)
    (he : before ++ [⟨.repositoryGet task.workflowId, found⟩] <+: t.log) :
    ∃ w, found = some w ∧ Lifecycle env w ∧ Tasked w task := by
  obtain ⟨now, utc, hrun⟩ := hc
  refine hrun.traced (fun _ before e _ => ∀ found : Option Workflow,
    e = (⟨.repositoryGet task.workflowId, found⟩ : CallEvent) →
    (⟨.claimNext, .ok (some task)⟩ : CallEvent) ∈ before →
    ∃ w, found = some w ∧ Lifecycle env w ∧ Tasked w task) rfl ?_
    (fun _ _ _ _ _ _ ih => ih) ht he found rfl hclaim
  intro c₁ tid t op next h₁ ht hr found hx hclaim
  cases hx
  have hc₁ : Reachable env c₁ := ⟨now, utc, h₁⟩
  obtain ⟨w, hw, htw⟩ := hc₁.claims hf ht hclaim task rfl
  exact ⟨w, hw, ((hc₁.consistent hf).stored hw).2.1, htw⟩

/-! ## Recorded notes -/

/-- The sink has the note, among the events since the call began. -/
def Sunk (born : State) (e : CallEvent) (s : State) : Prop :=
  ∀ n, noteOf e = some n → ∃ event ∈ s.audit.drop born.audit.length, event.note = n

theorem Reachable.sunk (hf : Function.Injective env.idFactory) (hc : Reachable env c)
    (ht : c.threads[tid]? = some t) (he : e ∈ t.log) : Sunk t.born e c.state := by
  obtain ⟨now, utc, hrun⟩ := hc
  refine hrun.logged Sunk rfl ?_ ?_ ht he
  · intro c₁ tid t op next h₁ ht hr n hn
    have hle := (((Reachable.safeAt hf ⟨now, utc, h₁⟩).born tid t ht).2.audit).length_le
    cases op with
    | auditRecord action outcome subject resourceId correlationId =>
      cases hn
      change ∃ event ∈ (recordAudit c₁.state.audit c₁.state.utc action outcome subject resourceId
        correlationId).drop _, _
      rw [recordAudit, List.drop_append_of_le_length hle]
      exact ⟨_, List.mem_append_right _ List.mem_cons_self, rfl⟩
    | repositoryCreate w key =>
      generalize ((system env).exec tid (.repositoryCreate w key) c₁.state).1 = r at hn
      cases r <;> cases hn
    | repositoryUpdate w v =>
      generalize ((system env).exec tid (.repositoryUpdate w v) c₁.state).1 = r at hn
      cases r <;> cases hn
    | _ => cases hn
  · intro c₁ m _ e h₁ ih n hn
    obtain ⟨event, hm, rfl⟩ := ih n hn
    have hev := Reachable.evolve hf ⟨now, utc, h₁⟩ (System.Reaches.refl.step m)
    exact ⟨event, (hev.audit.drop _).subset hm, rfl⟩

/-! ## All of it -/

/-- What the replies in the log of caller `tid` say about the configuration `c`. -/
structure Hindsight (env : Environment) (c : PoolConfig) (tid : Nat) (log : List CallEvent) :
    Prop where
  answer : ∀ e ∈ log, Answer env e.op e.reply
  alive : ∀ {id w}, (⟨.repositoryGet id, some w⟩ : CallEvent) ∈ log → Lifecycle env w
  delivers : ∀ {before task found}, ⟨.claimNext, .ok (some task)⟩ ∈ before →
    before ++ [⟨.repositoryGet task.workflowId, found⟩] <+: log →
    ∃ w, found = some w ∧ Lifecycle env w ∧ Tasked w task
  stored : ∀ {w v w'}, (⟨.repositoryUpdate w v, .ok w'⟩ : CallEvent) ∈ log →
    ¬Overtaken c tid w.workflowId v
  refused : ∀ {before e w}, before ++ [e] <+: log → RefusedUpdate w before e →
    (∀ e ∈ log, ¬Replaces w.workflowId w.stateVersion e) →
    Overtaken c tid w.workflowId w.stateVersion
  enlists : ∀ e ∈ log, Enlists e c.state

theorem Reachable.hindsight (hf : Function.Injective env.idFactory) (hc : Reachable env c)
    (ht : c.threads[tid]? = some t) : Hindsight env c tid t.log where
  answer e he := by
    obtain ⟨before, after, hlog⟩ := List.append_of_mem he
    exact ((hc.accounts hf ht).1.fits hlog).2
  alive he := ((hc.shown hf ht he).1 _ rfl).life
  delivers hclaim he := hc.delivers hf ht hclaim he
  stored := by
    rintro w v w' he ⟨i, hne, hi⟩
    exact hne (hc.replaced_once hf hi ⟨t, ht, _, he, rfl, rfl⟩)
  refused := by
    intro before e w he hx hno
    obtain ⟨i, hi⟩ := hc.replaced_of_refused hf ht he hx
    refine ⟨i, ?_, hi⟩
    rintro rfl
    obtain ⟨u, hu, e, he, hv⟩ := hi
    cases ht.symm.trans hu
    exact hno e he hv
  enlists e he := hc.enlists hf ht he

/-! ## Reading a log

What comes next in the log of a caller that has ended, behind `before`. -/

section Reading
variable {before log : List CallEvent} {o : Except Failure Workflow} {w w' : Workflow}

theorem mem_sofar (h : before ++ [e] <+: log) : e ∈ log :=
  h.subset (List.mem_append_right _ List.mem_cons_self)

theorem follows_audit {action outcome correlationId : String} {subject resourceId : Option String}
    {f : Unit → Service Workflow}
    (h : (auditRecord action outcome subject resourceId correlationId >>= f).Follows before log o) :
    ⟨.auditRecord action outcome subject resourceId correlationId, ()⟩ ∈ log ∧
      (f ()).Follows
        (before ++ [⟨.auditRecord action outcome subject resourceId correlationId, ()⟩]) log o := by
  obtain ⟨_, hp, h⟩ := h.perform
  exact ⟨mem_sofar hp, h⟩

theorem follows_fail {kind : ErrorKind} {detail : String}
    (h : (fail kind detail : Service Workflow).Follows before log o) :
    log = before ∧ o = .error (.application kind detail) := h.raise

theorem Hindsight.get (hs : Hindsight env c tid log) {f : Option Workflow → Service Workflow}
    (h : (repositoryGet id >>= f).Follows before log o) :
    ∃ found, before ++ [⟨.repositoryGet id, found⟩] <+: log ∧
      (f found).Follows (before ++ [⟨.repositoryGet id, found⟩]) log o ∧
      ∀ w, found = some w → w.workflowId = id ∧ Lifecycle env w := by
  obtain ⟨found, hp, h⟩ := h.perform
  refine ⟨found, hp, h, ?_⟩
  rintro w rfl
  exact ⟨hs.answer _ (mem_sofar hp) w rfl, hs.alive (mem_sofar hp)⟩

theorem Hindsight.evaluate (hs : Hindsight env c tid log) {context : ProcessingContext}
    {f : PolicyDecision → Service Workflow}
    (h : (evaluate context >>= f).Follows before log o) :
    (f (env.policy context)).Follows (before ++ [⟨.evaluate context, env.policy context⟩]) log
      o := by
  obtain ⟨decision, hp, h⟩ := h.perform
  obtain rfl : decision = env.policy context := hs.answer _ (mem_sofar hp)
  exact h

theorem Hindsight.classify (hs : Hindsight env c tid log) {text : String}
    {declared : Option (Finset DataCategory)} {f : DataProfile → Service Workflow}
    (h : (classify text declared >>= f).Follows before log o) :
    (f (env.classifier text declared)).Follows
      (before ++ [⟨.classify text declared, env.classifier text declared⟩]) log o := by
  obtain ⟨profile, hp, h⟩ := h.perform
  obtain rfl : profile = env.classifier text declared := hs.answer _ (mem_sofar hp)
  exact h

theorem Hindsight.claimNext (hs : Hindsight env c tid log)
    {f : Option ExecutionTask → Service Workflow} (h : (claimNext >>= f).Follows before log o) :
    ∃ claimed, (f claimed).Follows (before ++ [⟨.claimNext, .ok claimed⟩]) log o := by
  obtain ⟨r, hp, ⟨e, rfl, -⟩ | ⟨claimed, rfl, h⟩⟩ := h.performOrRaise
  · obtain ⟨_, hr⟩ := hs.answer _ (mem_sofar hp)
    cases hr
  · exact ⟨claimed, h⟩

theorem Hindsight.execute (hs : Hindsight env c tid log) {proposal : ToolActionProposal}
    {now : Datetime} {f : ToolExecutionResult → Service Workflow}
    (h : (execute task proposal now >>= f).Follows before log o) :
    ∃ result, (f result).Follows (before ++ [⟨.execute task proposal now, .ok result⟩]) log o := by
  obtain ⟨r, hp, ⟨e, rfl, -⟩ | ⟨result, rfl, h⟩⟩ := h.performOrRaise
  · obtain ⟨_, hr⟩ := hs.answer _ (mem_sofar hp)
    cases hr
  · exact ⟨result, h⟩

/-- The update of a version that the call has seen, and not replaced yet. -/
theorem Hindsight.update (hs : Hindsight env c tid log) {f : Workflow → Service Workflow}
    (h : (repositoryUpdate w' w.stateVersion >>= f).Follows before log o)
    (hw : w ∈ seen before) (hid : w'.workflowId = w.workflowId)
    (hno : ∀ e ∈ before, ¬Replaces w.workflowId w.stateVersion e) :
    (Overtaken c tid w.workflowId w.stateVersion ∧ o = .error staleUpdate ∧
      log = before ++ [⟨.repositoryUpdate w' w.stateVersion, .error staleUpdate⟩]) ∨
    (¬Overtaken c tid w.workflowId w.stateVersion ∧
      (f w').Follows (before ++ [⟨.repositoryUpdate w' w.stateVersion, .ok w'⟩]) log o) := by
  obtain ⟨r, hp, ⟨e, rfl, hl, ho⟩ | ⟨v, rfl, h⟩⟩ := h.performOrRaise
  · obtain rfl : e = staleUpdate := hs.answer _ (mem_sofar hp)
    refine .inl ⟨hs.refused hp ⟨hw, w', _, hid, rfl⟩ ?_, ho, hl⟩
    intro x hx
    rw [hl] at hx
    rcases List.mem_append.mp hx with hx | hx
    · exact hno x hx
    · rw [List.mem_singleton.mp hx]
      exact fun h => h
  · obtain rfl : v = w' := hs.answer _ (mem_sofar hp)
    have hold := hs.stored (mem_sofar hp)
    rw [hid] at hold
    exact .inr ⟨hold, h⟩

theorem Hindsight.enqueue (hs : Hindsight env c tid log) {f : ExecutionTask → Service Workflow}
    (h : (enqueue task >>= f).Follows before log o) :
    (c.state.Misbound task ∧ o = .error misboundTask ∧
      log = before ++ [⟨.enqueue task, .error misboundTask⟩]) ∨
    (¬c.state.Misbound task ∧
      ∃ u, (f u).Follows (before ++ [⟨.enqueue task, .ok u⟩]) log o) := by
  obtain ⟨r, hp, ⟨e, rfl, hl, ho⟩ | ⟨u, rfl, h⟩⟩ := h.performOrRaise
  · obtain rfl : e = misboundTask := hs.answer _ (mem_sofar hp) e rfl
    exact .inl ⟨(hs.enlists _ (mem_sofar hp) task _ rfl).1 ⟨_, rfl⟩, ho, hl⟩
  · obtain ⟨t, ht, hd⟩ := (hs.enlists _ (mem_sofar hp) task _ rfl).2 ⟨u, rfl⟩
    refine .inr ⟨?_, u, h⟩
    rintro ⟨t', ht', hne⟩
    cases ht.symm.trans ht'
    exact hne hd

end Reading

end AgenticDelivery.Api
