import AgenticDelivery.Api.SideEffects

/-! # Attribution

Every decision, plan and record of a run goes back to a call of that run, made
by someone who was entitled to it. The logs of the callers are the witnesses. -/
namespace AgenticDelivery.Api
open AgenticDelivery.Atomic AgenticDelivery.Data AgenticDelivery.Governance AgenticDelivery.Runtime

variable {env : Environment} {c c' : PoolConfig}

/-- A `decide_approval` call of the run, by a reviewer or administrator other than
the owner, has stored decision `a` on workflow `id`. -/
def DecidedIn (c : PoolConfig) (id owner : String) (a : ApprovalDecision) : Prop :=
  ∃ (tid : Nat) (t : Caller) (principal : Principal) (reason key correlationId : String),
    c.threads[tid]? = some t ∧
    t.call = .decideApproval principal id a.decision reason key correlationId ∧
    principal.roles ∩ {.reviewer, .administrator} ≠ ∅ ∧ principal.subject = a.reviewerId ∧
    owner ≠ principal.subject ∧
    ∃ w ∈ writes t.log, w.workflowId = id ∧ w.approvalDecision = some { a with consumedAt := none }

/-- A `plan` call of the run, by the owner or an administrator, has stored the
result on workflow `id`. -/
def PlannedIn (c : PoolConfig) (id owner : String) (result : PlanningResult) : Prop :=
  ∃ (tid : Nat) (t : Caller) (principal : Principal) (correlationId : String),
    c.threads[tid]? = some t ∧ t.call = .plan principal id correlationId ∧
    (owner = principal.subject ∨ .administrator ∈ principal.roles) ∧
    ∃ w ∈ writes t.log, w.workflowId = id ∧ w.planningResult = some result

/-- A `process_next_task` call of the run, by an operator or administrator, was
given record `r` by the executor. -/
def TicketedIn (c : PoolConfig) (r : ToolExecutionResult) : Prop :=
  ∃ (tid : Nat) (t : Caller) (principal : Principal) (correlationId : String),
    c.threads[tid]? = some t ∧ t.call = .processNextTask principal correlationId ∧
    principal.roles ∩ {.operator, .administrator} ≠ ∅ ∧ r ∈ tickets t.log

/-- Everything that is stored goes back to a call. -/
structure Attributed (c : PoolConfig) : Prop where
  approval : ∀ {id w a}, c.state.stored id = some w → w.approvalDecision = some a →
    DecidedIn c id w.ownerId a
  planning : ∀ {id w result}, c.state.stored id = some w → w.planningResult = some result →
    PlannedIn c id w.ownerId result
  record : ∀ {key r}, c.state.record key = some r → TicketedIn c r

/-- The callers of `c` are there in `c'`, at the same point or a later one. -/
def Continues (c c' : PoolConfig) : Prop :=
  ∀ (tid : Nat) (t : Caller), c.threads[tid]? = some t →
    ∃ t', c'.threads[tid]? = some t' ∧ t.Extends t'

section Continue
variable (h : Continues c c')
include h

theorem DecidedIn.mono {id owner : String} {a : ApprovalDecision} (hd : DecidedIn c id owner a) :
    DecidedIn c' id owner a := by
  obtain ⟨tid, t, principal, reason, key, correlationId, ht, hcall, hr, hs, ho, w, hw, hwa⟩ := hd
  obtain ⟨t', ht', he⟩ := h tid t ht
  obtain ⟨more, hlog⟩ := he.log
  refine ⟨tid, t', principal, reason, key, correlationId, ht', he.call.trans hcall, hr, hs, ho, w,
    ?_, hwa⟩
  rw [← hlog, writes_append]
  exact List.mem_append_left _ hw

theorem PlannedIn.mono {id owner : String} {result : PlanningResult}
    (hd : PlannedIn c id owner result) : PlannedIn c' id owner result := by
  obtain ⟨tid, t, principal, correlationId, ht, hcall, hr, w, hw, hwp⟩ := hd
  obtain ⟨t', ht', he⟩ := h tid t ht
  obtain ⟨more, hlog⟩ := he.log
  refine ⟨tid, t', principal, correlationId, ht', he.call.trans hcall, hr, w, ?_, hwp⟩
  rw [← hlog, writes_append]
  exact List.mem_append_left _ hw

theorem TicketedIn.mono {r : ToolExecutionResult} (hd : TicketedIn c r) : TicketedIn c' r := by
  obtain ⟨tid, t, principal, correlationId, ht, hcall, hr, hw⟩ := hd
  obtain ⟨t', ht', he⟩ := h tid t ht
  obtain ⟨more, hlog⟩ := he.log
  refine ⟨tid, t', principal, correlationId, ht', he.call.trans hcall, hr, ?_⟩
  rw [← hlog, tickets_append]
  exact List.mem_append_left _ hw

/-- A move that leaves the workflows and records alone keeps their attribution. -/
theorem Attributed.mono (ha : Attributed c)
    (hr : c'.state.repository.workflows = c.state.repository.workflows)
    (he : c'.state.toolExecutor = c.state.toolExecutor) : Attributed c' where
  approval hw hv := (ha.approval (by rw [State.stored, ← hr]; exact hw) hv).mono h
  planning hw hv := (ha.planning (by rw [State.stored, ← hr]; exact hw) hv).mono h
  record hk := (ha.record (by rw [State.record, ← he]; exact hk)).mono h

end Continue

/-- The consumption of an approval does not change who has taken it. -/
theorem DecidedIn.congr {id owner : String} {a a' : ApprovalDecision} (h : DecidedIn c id owner a)
    (he : { a with consumedAt := none } = { a' with consumedAt := none }) :
    DecidedIn c id owner a' := by
  obtain ⟨tid, t, principal, reason, key, correlationId, ht, hcall, hr, hs, ho, w, hw, hid, ha⟩ := h
  have hd : a.decision = a'.decision := by
    have := congrArg (·.decision) he
    exact this
  have hrev : a.reviewerId = a'.reviewerId := by
    have := congrArg (·.reviewerId) he
    exact this
  exact ⟨tid, t, principal, reason, key, correlationId, ht, hd ▸ hcall, hr, hrev ▸ hs, ho, w, hw,
    hid, he ▸ ha⟩

section Advance
variable {tid : Nat} {t : Caller} {op : Op} {next : Reply op → Service Workflow} {w w' : Workflow}

/-- What a call stores is in its log. -/
theorem mem_writes_advance (hev : writeOf ⟨op, (exec env tid op c.state).1⟩ = some w') :
    w' ∈ writes (t.log ++ [⟨op, (exec env tid op c.state).1⟩]) := by
  rw [writes_append, writes_cons, hev]
  exact List.mem_append_right _ List.mem_cons_self

theorem decidedIn_advance (ht : c.threads[tid]? = some t) (ho : t.rest = .call op next)
    (hl : Lifecycle env w) (hadv : Advance env t.call w w')
    (hev : writeOf ⟨op, (exec env tid op c.state).1⟩ = some w')
    (hw : ∀ a, w.approvalDecision = some a → DecidedIn c w.workflowId w.ownerId a)
    {a : ApprovalDecision} (ha : w'.approvalDecision = some a) :
    DecidedIn ((system env).advance c tid t op next) w'.workflowId w'.ownerId a := by
  have hg := hl.grows hadv
  rw [hg.workflowId, hg.ownerId]
  rcases hadv.approval_cases ha with ⟨a₀, ha₀, he⟩ | ⟨p, reason, key, cid, hcall, hmay, hs, hn⟩
  · have hold := (hw a₀ ha₀).congr he
    exact hold.mono fun i u hu => (system env).advance_extends ht ho hu
  · refine ⟨tid, _, p, reason, key, cid, (system env).advance_self op next ht, hcall, hmay.1, hs,
      hmay.2, w', mem_writes_advance hev, hg.workflowId, ?_⟩
    rw [ha, ← hn]

theorem plannedIn_advance (ht : c.threads[tid]? = some t) (ho : t.rest = .call op next)
    (hl : Lifecycle env w) (hadv : Advance env t.call w w')
    (hev : writeOf ⟨op, (exec env tid op c.state).1⟩ = some w')
    (hw : ∀ result, w.planningResult = some result → PlannedIn c w.workflowId w.ownerId result)
    {result : PlanningResult} (hr : w'.planningResult = some result) :
    PlannedIn ((system env).advance c tid t op next) w'.workflowId w'.ownerId result := by
  have hg := hl.grows hadv
  rw [hg.workflowId, hg.ownerId]
  rcases hadv.planning_cases hr with hr₀ | ⟨p, cid, hcall, hmay⟩
  · exact (hw result hr₀).mono fun i u hu => (system env).advance_extends ht ho hu
  · exact ⟨tid, _, p, cid, (system env).advance_self op next ht, hcall, hmay, w',
      mem_writes_advance hev, hg.workflowId, hr⟩

/-- An operation keeps the attribution: what it stores, its own call has stored. -/
theorem Attributed.advance (hf : Function.Injective env.idFactory) (hc : Reachable env c)
    (ha : Attributed c) (ht : c.threads[tid]? = some t) (ho : t.rest = .call op next) :
    Attributed ((system env).advance c tid t op next) := by
  have hcont : Continues c ((system env).advance c tid t op next) :=
    fun i u hu => (system env).advance_extends ht ho hu
  have hstate : ((system env).advance c tid t op next).state = (exec env tid op c.state).2 := rfl
  rcases hc.executor_step hf ht ho with hex | ⟨principal, correlationId, r, hcall, hmay, hev, hst⟩
  · rcases hc.repository_step hf ht ho with ⟨hrep, -⟩ | ⟨w, w', hw, -, hadv, hev, hst⟩ |
      ⟨r, id', now, -, -, hn, -, -, hst⟩
    · exact ha.mono hcont (congrArg (·.workflows) hrep) hex
    · obtain ⟨hid, hl, -⟩ := (hc.consistent hf).stored hw
      refine ⟨fun {id v a} hv hva => ?_, fun {id v result} hv hvr => ?_, fun hr => ?_⟩
      · rw [hstate, hst, put_stored] at hv
        split at hv
        · rename_i he
          cases hv
          rw [he]
          exact decidedIn_advance ht ho hl hadv hev (fun a h => hid ▸ ha.approval hw h) hva
        · exact (ha.approval hv hva).mono hcont
      · rw [hstate, hst, put_stored] at hv
        split at hv
        · rename_i he
          cases hv
          rw [he]
          exact plannedIn_advance ht ho hl hadv hev (fun a h => hid ▸ ha.planning hw h) hvr
        · exact (ha.planning hv hvr).mono hcont
      · rw [hstate, State.record, hex] at hr
        exact (ha.record hr).mono hcont
    · refine ⟨fun {id v a} hv hva => ?_, fun {id v result} hv hvr => ?_, fun hr => ?_⟩
      · rw [hstate, hst, insert_stored] at hv
        split at hv
        · cases hv
          cases hva
        · exact (ha.approval hv hva).mono hcont
      · rw [hstate, hst, insert_stored] at hv
        split at hv
        · cases hv
          cases hvr
        · exact (ha.planning hv hvr).mono hcont
      · rw [hstate, State.record, hex] at hr
        exact (ha.record hr).mono hcont
  · refine ⟨fun {id v a} hv hva => ?_, fun {id v result} hv hvr => ?_, fun {key r'} hr => ?_⟩
    · rw [hstate, hst] at hv
      exact (ha.approval hv hva).mono hcont
    · rw [hstate, hst] at hv
      exact (ha.planning hv hvr).mono hcont
    · rw [hstate, hst, file_record] at hr
      split at hr
      · cases hr
        refine ⟨tid, _, principal, correlationId, (system env).advance_self op next ht, hcall, hmay,
          ?_⟩
        change r ∈ tickets (t.log ++ [⟨op, (exec env tid op c.state).1⟩])
        rw [tickets_append, tickets_cons, hev]
        exact List.mem_append_right _ List.mem_cons_self
      · exact (ha.record hr).mono hcont

end Advance

/-- Every configuration of every run is attributed. -/
theorem Reachable.attributed (hf : Function.Injective env.idFactory) (hc : Reachable env c) :
    Attributed c := by
  refine hc.induct hf (P := Attributed) ?_ ?_ ?_ ?_
  · exact fun _ _ => ⟨fun h => (by cases h), fun h => (by cases h), fun h => (by cases h)⟩
  · intro c call _ ha
    exact ha.mono (fun i t ht => ⟨t, (system env).start_extends call ht, System.extends_refl t⟩)
      rfl rfl
  · exact fun c tid t op next hr ha ht ho => ha.advance hf hr ht ho
  · intro c t _ ha
    have hcont : Continues c { c with state := (system env).tick t c.state } :=
      fun i t ht => ⟨t, ht, System.extends_refl t⟩
    exact ha.mono hcont rfl rfl

/-- **Every side effect goes back to authorised and separate people.** So nothing
is executed in a run of requesters alone, and nothing for an owner who is alone. -/
theorem attributed_to_authorised (hf : Function.Injective env.idFactory) (hc : Reachable env c) :
    (∀ id w a, c.state.stored id = some w → w.approvalDecision = some a →
      DecidedIn c id w.ownerId a) ∧
    (∀ id w result, c.state.stored id = some w → w.planningResult = some result →
      PlannedIn c id w.ownerId result) ∧
    (∀ r ∈ c.state.records, TicketedIn c r) ∧
    (∀ (tid : Nat) (t : Caller) op next, c.threads[tid]? = some t → t.rest = .call op next →
      (exec env tid op c.state).2.toolExecutor ≠ c.state.toolExecutor →
      ∃ principal correlationId, t.call = .processNextTask principal correlationId ∧
        principal.roles ∩ {.operator, .administrator} ≠ ∅) ∧
    ((∀ t ∈ c.threads, t.call.principal.roles ⊆ {.requester}) → c.state.records = []) ∧
    (∀ owner, (∀ t ∈ c.threads, t.call.principal.subject = owner) →
      ∀ id w, c.state.stored id = some w → w.ownerId = owner →
        ∀ r ∈ c.state.records, ¬RecordFor w r) := by
  have ha := hc.attributed hf
  refine ⟨fun _ _ _ hw h => ha.approval hw h, fun _ _ _ hw h => ha.planning hw h, ?_, ?_, ?_, ?_⟩
  · intro r hr
    obtain ⟨key, hr⟩ := mem_records.mp hr
    exact ha.record hr
  · intro tid t op next ht ho hne
    rcases hc.executor_step hf ht ho with he | ⟨principal, correlationId, _, hcall, hmay, -⟩
    · exact absurd he hne
    · exact ⟨principal, correlationId, hcall, hmay⟩
  · intro hroles
    refine List.eq_nil_iff_forall_not_mem.mpr fun r hr => ?_
    obtain ⟨key, hr⟩ := mem_records.mp hr
    obtain ⟨tid, t, principal, correlationId, ht, hcall, hmay, -⟩ := ha.record hr
    have hsub := hroles t (List.mem_of_getElem? ht)
    rw [hcall] at hsub
    refine hmay (Finset.eq_empty_of_forall_notMem fun role hrole => ?_)
    obtain ⟨h1, h2⟩ := Finset.mem_inter.mp hrole
    rw [Finset.mem_singleton.mp (hsub h1)] at h2
    exact absurd h2 (by decide)
  · intro owner halone id w hw howner r hr hfor
    obtain ⟨key, hr⟩ := mem_records.mp hr
    obtain ⟨_, approval, -, hap, -⟩ := recorded_of_recordFor (hc.consistent hf) hw hr hfor
    obtain ⟨tid, t, principal, _, _, _, ht, hcall, -, -, ho, -⟩ := ha.approval hw hap
    have hsubject := halone t (List.mem_of_getElem? ht)
    rw [hcall] at hsubject
    exact ho (howner.trans hsubject.symm)

/-- In the examples the reviewer's call has decided. -/
theorem attributed_to_authorised_completedRun :
    ∃ w a, ((system sampleEnv).play (initial 0 0) completedRun).state.stored "w" = some w ∧
      w.approvalDecision = some a ∧
      DecidedIn ((system sampleEnv).play (initial 0 0) completedRun) "w" w.ownerId a := by
  obtain ⟨w, hw, -, h⟩ := completedRun_stored
  obtain ⟨a, ha⟩ := Option.isSome_iff_exists.mp h
  exact ⟨w, a, hw, ha, (attributed_to_authorised sampleId_injective
    (reachable_play sampleEnv 0 0 completedRun)).1 "w" w a hw ha⟩

end AgenticDelivery.Api
