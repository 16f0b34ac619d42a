import AgenticDelivery.Api.AuditTruth

/-! # Views of a workflow

What the repository gives and stores of one workflow is one line of versions: whoever sees
it, and however their calls interleave, of two versions one is a later state of the other,
and a call sees none from before its start. -/
namespace AgenticDelivery.Api
open AgenticDelivery.Atomic AgenticDelivery.Data AgenticDelivery.Governance AgenticDelivery.Runtime

variable {env : Environment} {c c' : PoolConfig} {w w' : Workflow}

/-- What `e'` has shown of a workflow is at least as late as what `e` has shown of it. -/
def LaterView (env : Environment) (e e' : CallEvent) : Prop :=
  ∀ w w', knownOf e = some w → knownOf e' = some w' → w.workflowId = w'.workflowId → Later env w w'

/-- What is known and has been stored since is the same state or a later one. -/
theorem Known.later_stored {s : State} (h : Known env w s) (hw : s.stored w.workflowId = some w') :
    Later env w w' := by
  obtain ⟨x, hx, hl⟩ := h.stored
  cases hx.symm.trans hw
  exact hl

/-- **What a run has shown of one workflow is a chain.** -/
theorem Reachable.comparable (hf : Function.Injective env.idFactory) (hc : Reachable env c) :
    ∀ e ∈ c.events, ∀ e' ∈ c.events, LaterView env e e' ∨ LaterView env e' e := by
  obtain ⟨now, utc, h⟩ := hc
  refine h.comparable (fun e w w' hw hw' _ => ?_) rfl ?_
  · cases hw.symm.trans hw'
    exact .refl
  · intro c₁ tid t op next h₁ ht hr e he w w' hw hw' hid
    have hc₁ : Reachable env c₁ := ⟨now, utc, h₁⟩
    obtain ⟨u, hu, he⟩ := List.mem_flatMap.mp he
    obtain ⟨i, hu⟩ := List.getElem?_of_mem hu
    have hknown := ((hc₁.shown hf hu he).1 w hw).evolve (hc₁.evolve hf (.step .refl (.act tid)))
    rw [System.step_act ht hr] at hknown
    have hstored := stored_of_knownOf (hc₁.consistent hf) hw'
    rw [← hid] at hstored
    exact hknown.later_stored hstored

/-- What a call is shown is at least as late as what was stored at its start. -/
theorem Reachable.since_born (hf : Function.Injective env.idFactory) (hc : Reachable env c)
    {tid : Nat} {t : Caller} (ht : c.threads[tid]? = some t) {e : CallEvent} (he : e ∈ t.log)
    (hw : knownOf e = some w) (hb : t.born.stored w.workflowId = some w') : Later env w' w := by
  obtain ⟨now, utc, h⟩ := hc
  refine h.logged (fun born e _ => ∀ w w', knownOf e = some w →
    born.stored w.workflowId = some w' → Later env w' w) rfl ?_ ?_ ht he w w' hw hb
  · intro c₁ i u op next h₁ hu hr w w' hw hb
    have hc₁ : Reachable env c₁ := ⟨now, utc, h₁⟩
    obtain ⟨hinv, hev⟩ := (hc₁.safeAt hf).born i u hu
    obtain ⟨hid, hknown⟩ := Known.of_stored hinv hb
    have hknown := (hknown.evolve hev).evolve (hc₁.evolve hf (.step .refl (.act i)))
    rw [System.step_act hu hr] at hknown
    have hstored := stored_of_knownOf (hc₁.consistent hf) hw
    rw [← hid] at hstored
    exact hknown.later_stored hstored
  · exact fun _ _ _ _ _ hold => hold

/-- **What a call returns is at least as late as what was returned before it started.** -/
theorem Reachable.later_returned (hf : Function.Injective env.idFactory) (hc : Reachable env c)
    (hr : (system env).Reaches c c') {tid tid' : Nat} {t t' : Caller}
    (ht : c.threads[tid]? = some t) (ht' : c'.threads[tid']? = some t')
    (hlate : c.threads.length ≤ tid') (ho : t.rest.outcome = some (.ok w))
    (ho' : t'.rest.outcome = some (.ok w')) (hid : w.workflowId = w'.workflowId) :
    Later env w w' := by
  have hc' := hc.trans hr
  obtain ⟨c₁, hr₁, hborn⟩ := hr.born_after ht' hlate
  obtain ⟨x, hx, hl⟩ := ((hc.returned hf ht ho).1.evolve (hc.evolve hf hr₁)).stored
  obtain ⟨-, hseen, -⟩ := System.ends_of_keeps (hc'.accounts hf ht').2 ho'
  obtain ⟨e, he, hw'⟩ := List.mem_filterMap.mp hseen
  refine hl.trans (hc'.since_born hf ht' he hw' ?_)
  rw [hborn, ← hid]
  exact hx

/-- Of two returned workflows one is a later state of the other. -/
theorem Reachable.comparable_returned (hf : Function.Injective env.idFactory)
    (hc : Reachable env c) {tid tid' : Nat} {t t' : Caller} (ht : c.threads[tid]? = some t)
    (ht' : c.threads[tid']? = some t') (ho : t.rest.outcome = some (.ok w))
    (ho' : t'.rest.outcome = some (.ok w')) (hid : w.workflowId = w'.workflowId) :
    Later env w w' ∨ Later env w' w := by
  obtain ⟨-, hseen, -⟩ := System.ends_of_keeps (hc.accounts hf ht).2 ho
  obtain ⟨-, hseen', -⟩ := System.ends_of_keeps (hc.accounts hf ht').2 ho'
  obtain ⟨e, he, hw⟩ := List.mem_filterMap.mp hseen
  obtain ⟨e', he', hw'⟩ := List.mem_filterMap.mp hseen'
  have hm : e ∈ c.events := List.mem_flatMap.mpr ⟨t, List.mem_of_getElem? ht, he⟩
  have hm' : e' ∈ c.events := List.mem_flatMap.mpr ⟨t', List.mem_of_getElem? ht', he'⟩
  exact (hc.comparable hf e hm e' hm').imp (· w w' hw hw' hid) (· w' w hw' hw hid.symm)

end AgenticDelivery.Api
