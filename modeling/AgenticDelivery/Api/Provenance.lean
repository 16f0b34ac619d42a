import AgenticDelivery.Api.Runs

/-! # Where a stored workflow comes from

A stored workflow has been made by the calls of the run: one of them has created it, and
each step since was one of a call. What it holds goes back to their arguments. -/
namespace AgenticDelivery.Api
open AgenticDelivery.Atomic AgenticDelivery.Data AgenticDelivery.Governance AgenticDelivery.Runtime

variable {env : Environment} {calls calls' : Call → Prop} {w : Workflow} {c : PoolConfig}

/-- The workflows that these calls can make. -/
inductive Made (env : Environment) (calls : Call → Prop) : Workflow → Prop
  | create {r workflowId now} (called : calls (.create r)) (admitted : r.Admitted env) :
      Made env calls (r.received env workflowId now)
  | advance {call w w'} (h : Made env calls w) (called : calls call) (ha : Advance env call w w') :
      Made env calls w'

namespace Made

/-- It takes the calls of the steps only: one that cannot make a step can be left out. -/
theorem mono (h : Made env calls w) (hcreate : ∀ r, calls (.create r) → calls' (.create r))
    (hadvance : ∀ call w w', calls call → Advance env call w w' → calls' call) :
    Made env calls' w := by
  induction h with
  | create called admitted => exact .create (hcreate _ called) admitted
  | advance _ called ha ih => exact .advance ih (hadvance _ _ _ called ha) ha

theorem life (h : Made env calls w) : Lifecycle env w := by
  induction h with
  | create _ admitted => exact .receive admitted
  | advance _ _ ha ih => exact .advance ih ha

/-- The call that has created it. -/
theorem created (h : Made env calls w) : ∃ r workflowId now, calls (.create r) ∧
    r.Admitted env ∧ Grows (r.received env workflowId now) w := by
  induction h with
  | create called admitted => exact ⟨_, _, _, called, admitted, .refl _⟩
  | advance h _ ha ih =>
    obtain ⟨r, id, now, called, admitted, hg⟩ := ih
    exact ⟨r, id, now, called, admitted, hg.trans (h.life.grows ha)⟩

/-- The call that has planned it. -/
theorem planned (h : Made env calls w) (hp : w.planningResult ≠ none) :
    ∃ principal correlationId, calls (.plan principal w.workflowId correlationId) ∧
      (w.ownerId = principal.subject ∨ .administrator ∈ principal.roles) := by
  induction h with
  | create => exact absurd rfl hp
  | @advance call w w' h called ha ih =>
    have hg := h.life.grows ha
    obtain ⟨result, hr⟩ := Option.ne_none_iff_exists'.mp hp
    rw [hg.workflowId, hg.ownerId]
    rcases ha.planning_cases hr with hr | ⟨principal, correlationId, rfl, hmay⟩
    · exact ih (by rw [hr]; simp)
    · exact ⟨principal, correlationId, called, hmay⟩

/-- The call that has decided on it, with all of its arguments. -/
theorem decided (h : Made env calls w) {a : ApprovalDecision} (ha : w.approvalDecision = some a) :
    ∃ principal correlationId, calls (.decideApproval principal w.workflowId a.decision a.reason
        a.idempotencyKey correlationId) ∧
      principal.roles ∩ {.reviewer, .administrator} ≠ ∅ ∧ w.ownerId ≠ principal.subject ∧
      a.reviewerId = principal.subject := by
  induction h generalizing a with
  | create => cases ha
  | @advance call w w' h called hadv ih =>
    have hg := h.life.grows hadv
    rw [hg.workflowId, hg.ownerId]
    cases hadv with
    | decide authorised =>
      cases ha
      exact ⟨_, _, called, authorised.1, authorised.2, rfl⟩
    | completeExecution _ _ _ _ _ completed =>
      obtain ⟨a₀, ha₀, rfl⟩ := completeExecution_ok completed
      cases ha
      have hold := ih ha₀
      exact hold
    | _ => exact ih ha

/-- The call that has executed it. -/
theorem executed (h : Made env calls w) (hs : w.status = .executing ∨ w.status = .completed) :
    ∃ principal correlationId, calls (.processNextTask principal correlationId) ∧
      principal.roles ∩ {.operator, .administrator} ≠ ∅ := by
  cases h with
  | create => rcases hs with hs | hs <;> cases hs
  | advance h called ha =>
    cases ha with
    | beginExecution authorised => exact ⟨_, _, called, authorised⟩
    | completeExecution authorised => exact ⟨_, _, called, authorised⟩
    | @decide _ decision =>
      cases decision <;> rcases hs with hs | hs <;> cases hs
    | _ => rcases hs with hs | hs <;> cases hs

end Made

/-- A caller of the run makes the call. -/
def CalledIn (c : PoolConfig) (call : Call) : Prop := ∃ t ∈ c.threads, t.call = call

/-- **Every stored workflow was made by the calls of the run.** -/
theorem Reachable.made (hf : Function.Injective env.idFactory) (hc : Reachable env c) {id : String}
    (hw : c.state.stored id = some w) : Made env (CalledIn c) w := by
  refine hc.induct hf (P := fun c => ∀ id w, c.state.stored id = some w →
    Made env (CalledIn c) w) ?_ ?_ ?_ ?_ id w hw
  · intro _ _ id w hw
    cases hw
  · intro c call _ ih id w hw
    have hmore : ∀ call', CalledIn c call' → CalledIn ((system env).start c call) call' := by
      rintro call' ⟨t, ht, rfl⟩
      exact ⟨t, List.mem_append_left _ ht, rfl⟩
    exact (ih id w hw).mono (fun r => hmore _) fun call' _ _ h _ => hmore call' h
  · intro c tid t op next hc ih ht hr id w hw
    have hmore : ∀ call', CalledIn c call' →
        CalledIn ((system env).advance c tid t op next) call' := by
      rintro call' ⟨u, hu, rfl⟩
      obtain ⟨i, hu⟩ := List.getElem?_of_mem hu
      obtain ⟨u', hu', he⟩ := (system env).advance_extends ht hr hu
      exact ⟨u', List.mem_of_getElem? hu', he.call⟩
    have old : ∀ {id w}, c.state.stored id = some w →
        Made env (CalledIn ((system env).advance c tid t op next)) w :=
      fun hw => (ih _ _ hw).mono (fun r => hmore _) fun call' _ _ h _ => hmore call' h
    have own := hmore t.call ⟨t, List.mem_of_getElem? ht, rfl⟩
    change (exec env tid op c.state).2.stored id = some w at hw
    rcases hc.repository_step hf ht hr with ⟨hrep, -⟩ | ⟨v, v', hv, -, hadv, -, hst⟩ |
      ⟨r, id', now, hcall, hadmitted, -, -, -, hst⟩
    · rw [State.stored, hrep] at hw
      exact old hw
    · rw [hst, put_stored] at hw
      split at hw
      · cases hw
        exact .advance (old hv) own hadv
      · exact old hw
    · rw [hst, insert_stored] at hw
      split at hw
      · cases hw
        rw [hcall] at own
        exact .create own hadmitted
      · exact old hw
  · intro c _ _ ih id w hw
    exact ih id w hw

end AgenticDelivery.Api
