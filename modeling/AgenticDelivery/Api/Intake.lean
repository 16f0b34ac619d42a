import AgenticDelivery.Api.Runs

/-! # Intake

Two `create` calls of one owner with one idempotency key. The second answers
from the workflow the key is bound to; it compares the request and the locale
with it, and no other part of the payload. -/
namespace AgenticDelivery.Api
open AgenticDelivery.Atomic AgenticDelivery.Data AgenticDelivery.Governance AgenticDelivery.Runtime

variable {env : Environment} {c c' : PoolConfig}

/-- The request texts agree up to white space, and the locales up to case. -/
def CreateRequest.SameText (env : Environment) (r r' : CreateRequest) : Prop :=
  normalizeRequest r'.request = normalizeRequest r.request ∧
    env.lower r'.requestedLocale = env.lower r.requestedLocale

/-- The whole payloads agree, up to white space, case and the order of categories. -/
structure CreateRequest.SamePayload (env : Environment) (r r' : CreateRequest) : Prop where
  text : r.SameText env r'
  declaredCategories : r'.declaredCategories = r.declaredCategories
  purpose : r'.purpose = r.purpose
  jurisdiction : r'.jurisdiction = r.jurisdiction
  overlayIds : r'.overlayIds = r.overlayIds

/-- What an idempotent `create` owes to a second request `r'`, after `w` was the
answer to `r`: the same workflow for the same payload, else a conflict. -/
def Idempotent (env : Environment) (r r' : CreateRequest) (w : Workflow)
    (outcome : Except Failure Workflow) : Prop :=
  (r.SamePayload env r' → ∃ w', outcome = .ok w' ∧ w'.workflowId = w.workflowId) ∧
  (¬r.SamePayload env r' → outcome = .error keyConflict)

/-- Caller `tid`, with the request `r`, writes no key of another owner and changes
no stored workflow; what it returns, and what it refuses for, is its owner's. -/
structure KeepsApart (env : Environment) (tid : Nat) (s : State) (rest : Service Workflow)
    (r : CreateRequest) : Prop where
  keys : ∀ op next, rest = .call op next → ∀ owner key, owner ≠ r.principal.subject →
    (exec env tid op s).2.bound owner key = s.bound owner key
  workflows : ∀ op next, rest = .call op next → ∀ id w, s.stored id = some w →
    (exec env tid op s).2.stored id = some w
  returned : ∀ w, rest.outcome = some (.ok w) → w.ownerId = r.principal.subject
  refused : r.Admitted env → ∀ e, rest.outcome = some (.error e) → ∃ id w,
    s.bound r.principal.subject r.idempotencyKey = some id ∧ s.stored id = some w ∧
    w.ownerId = r.principal.subject

/-- A `create` call takes no step of a stored workflow. -/
theorem not_advance_create {r : CreateRequest} {w w' : Workflow} :
    ¬Advance env (.create r) w w' := nofun

/-- What the next operation of a `create` call does to the repository: nothing, or
it stores a workflow under a free id and a free key of its owner. -/
theorem Reachable.create_step (hf : Function.Injective env.idFactory) (h : Reachable env c)
    {tid : Nat} {t : Caller} {r : CreateRequest} {op : Op} {next : Reply op → Service Workflow}
    (ht : c.threads[tid]? = some t) (hcall : t.call = .create r) (hr : t.rest = .call op next) :
    (exec env tid op c.state).2.repository = c.state.repository ∨
    ∃ id now, c.state.stored id = none ∧
      c.state.bound r.principal.subject r.idempotencyKey = none ∧
      (exec env tid op c.state).2 = c.state.insert (r.received env id now) r.idempotencyKey := by
  rcases h.repository_step hf ht hr with ⟨he, -⟩ | ⟨w, w', -, -, ha, -⟩ |
    ⟨r', id, now, hcall', -, hn, hb, -, he⟩
  · exact .inl he
  · rw [hcall] at ha
    exact absurd ha not_advance_create
  · rw [hcall] at hcall'
    cases hcall'
    exact .inr ⟨id, now, hn, hb, he⟩

theorem keepsApart (hf : Function.Injective env.idFactory) (h : Reachable env c) {tid : Nat}
    {t : Caller} {r : CreateRequest} (ht : c.threads[tid]? = some t)
    (hcall : t.call = .create r) : KeepsApart env tid c.state t.rest r := by
  refine ⟨fun op next hr owner key ho => ?_, fun op next hr id w hw => ?_, fun w hok => ?_,
    fun hadm e he => ?_⟩
  · rcases h.create_step hf ht hcall hr with he | ⟨id, now, -, -, he⟩
    · rw [State.bound, he]
    · rw [he, insert_bound, if_neg]
      intro hk
      exact ho (Prod.mk.inj hk).1
  · rcases h.create_step hf ht hcall hr with he | ⟨id', now, hn, -, he⟩
    · rw [State.stored, he]
      exact hw
    · rw [he, insert_stored, if_neg]
      · exact hw
      · intro hid
        rw [hid] at hw
        exact absurd (hn.symm.trans hw) nofun
  · have hp := (h.safeAt hf).post ht hok
    rw [hcall] at hp
    obtain ⟨-, ho, -⟩ := hp
    exact ho
  · have hp := (h.safeAt hf).post ht he
    rw [hcall] at hp
    obtain ⟨-, id, w, hb, hw, -⟩ := hp hadm
    obtain ⟨w', hw', ho⟩ := (h.consistent hf).bound hb
    rw [hw] at hw'
    cases hw'
    exact ⟨id, w, hb, hw, ho⟩

/-- The outcome of the second call, from the workflow that answered the first. -/
theorem idempotent_iff {s : State} {r r' : CreateRequest} {w : Workflow}
    {outcome : Except Failure Workflow} (hfirst : Created env r (.ok w) s)
    (hs : r'.principal.subject = r.principal.subject) (hk : r'.idempotencyKey = r.idempotencyKey)
    (hadm : r'.Admitted env) (hsecond : Created env r' outcome s) :
    Idempotent env r r' w outcome ↔ (r.SameText env r' → r.SamePayload env r') := by
  obtain ⟨-, -, hreq, hloc, hb, hlife, v, hv, hl⟩ := hfirst
  have hg := hl.grows hlife
  cases outcome with
  | ok w' =>
    obtain ⟨-, -, hreq', hloc', hb', hlife', v', hv', hl'⟩ := hsecond
    rw [hs, hk, hb] at hb'
    have hid := Option.some.inj hb'
    rw [← hid, hv] at hv'
    cases hv'
    have hg' := hl'.grows hlife'
    -- both answers are earlier states of one stored workflow
    have htext : r.SameText env r' :=
      ⟨by rw [← hreq', ← hreq, ← hg.request, hg'.request],
        by rw [← hloc', ← hloc, ← hg.requestedLocale, hg'.requestedLocale]⟩
    constructor
    · intro hi _
      by_contra hdiff
      cases hi.2 hdiff
    · intro hsame
      exact ⟨fun _ => ⟨w', rfl, hid.symm⟩, fun hdiff => absurd (hsame htext) hdiff⟩
  | error e =>
    obtain ⟨he, id, w', hb', hw', hdiff⟩ := hsecond hadm
    rw [hs, hk, hb] at hb'
    cases hb'
    rw [hv] at hw'
    cases hw'
    have htext : ¬r.SameText env r' := fun ht =>
      hdiff ⟨by rw [hg.request, hreq, ht.1], by rw [hg.requestedLocale, hloc, ht.2]⟩
    constructor
    · exact fun _ ht => absurd ht htext
    · exact fun _ => ⟨fun hsame => absurd hsame.text htext, fun _ => by rw [he]⟩

/-- **A second `create` with the key of a first one is idempotent exactly when the
payloads do not differ in the categories, the purpose, the jurisdiction or the
overlays alone.** It never stores anything, and callers with different owners keep
apart. -/
theorem create_idempotent_iff (hf : Function.Injective env.idFactory) (hc : Reachable env c)
    {tid : Nat} {t t' : Caller} {r r' : CreateRequest} {w : Workflow}
    (ht : c.threads[tid]? = some t) (hcall : t.call = .create r)
    (hok : t.rest.outcome = some (.ok w)) (hs : r'.principal.subject = r.principal.subject)
    (hk : r'.idempotencyKey = r.idempotencyKey) (hadm : r'.Admitted env)
    (hrun : (system env).Reaches ((system env).start c (.create r')) c')
    (ht' : c'.threads[c.threads.length]? = some t') :
    (∀ outcome, t'.rest.outcome = some outcome →
      (Idempotent env r r' w outcome ↔ (r.SameText env r' → r.SamePayload env r'))) ∧
    (∀ op next, t'.rest = .call op next →
      (exec env c.threads.length op c'.state).2.repository = c'.state.repository) ∧
    ∀ i u q, c'.threads[i]? = some u → u.call = .create q →
      KeepsApart env i c'.state u.rest q := by
  have hstart := hc.step (.spawn (.create r'))
  have hc' : Reachable env c' := hstart.trans hrun
  -- the second caller, from its start on
  have hspawn : ((system env).start c (.create r')).threads[c.threads.length]? =
      some ⟨.create r', c.state, [], (system env).body (.create r')⟩ := by
    rw [System.start, List.getElem?_append_right (Nat.le_refl _)]
    simp
  obtain ⟨t₁, ht₁, hext⟩ := hrun.extends hspawn
  rw [ht'] at ht₁
  cases ht₁
  have hcall' : t'.call = .create r' := hext.call
  -- the answer of the first, at the end
  have hfirst : Created env r (.ok w) c'.state := by
    obtain ⟨t₂, ht₂, hext₂⟩ := hrun.extends ((system env).start_extends _ ht)
    have := hext₂.ended _ hok
    subst this
    have hp := (hc'.safeAt hf).post ht₂ hok
    rw [hcall] at hp
    exact hp
  refine ⟨fun outcome ho => ?_, fun op next hr => ?_, fun i u q hu hq => keepsApart hf hc' hu hq⟩
  · have hp := (hc'.safeAt hf).post ht' ho
    rw [hcall'] at hp
    exact idempotent_iff hfirst hs hk hadm hp
  · have hp := (hc.safeAt hf).post ht hok
    rw [hcall] at hp
    obtain ⟨-, -, -, -, hb, -⟩ := hp
    have hb' := (hstart.evolve hf hrun).bound hb
    rcases hc'.create_step hf ht' hcall' hr with he | ⟨_, _, -, hn, -⟩
    · exact he
    · rw [hs, hk, hb'] at hn
      cases hn

/-- The request of the examples, created; caller 0. -/
def createdRun : PoolConfig :=
  (system sampleEnv).play (initial 0 0) (moves 0 (.create sampleRequest) 8)

/-- A second call with the request `r`, to its end; caller 1. -/
def createAgain (r : CreateRequest) : PoolConfig :=
  (system sampleEnv).play ((system sampleEnv).start createdRun (.create r))
    (List.replicate 8 (.act 1))

/-- The same request again is answered with the same workflow. -/
theorem create_idempotent_sampleRequest :
    ∃ t w t' w', createdRun.threads[0]? = some t ∧ t.rest.outcome = some (.ok w) ∧
      (createAgain sampleRequest).threads[1]? = some t' ∧ t'.rest.outcome = some (.ok w') ∧
      Idempotent sampleEnv sampleRequest sampleRequest w (.ok w') := by
  have h : (createdRun.threads[0]?.bind fun t => t.rest.returned.bind fun _ =>
      (createAgain sampleRequest).threads[1]?.bind fun t' => t'.rest.returned.map fun _ =>
        decide (t.call = .create sampleRequest ∧ createdRun.threads.length = 1)) =
      some true := by decide
  obtain ⟨t, ht, h⟩ := Option.bind_eq_some_iff.mp h
  obtain ⟨w, hw, h⟩ := Option.bind_eq_some_iff.mp h
  obtain ⟨t', ht', h⟩ := Option.bind_eq_some_iff.mp h
  obtain ⟨w', hw', h⟩ := Option.map_eq_some_iff.mp h
  obtain ⟨hcall, hlen⟩ := of_decide_eq_true h
  have hok := Program.outcome_of_returned hw
  have hok' := Program.outcome_of_returned hw'
  rw [← hlen] at ht'
  refine ⟨t, w, t', w', ht, hok, hlen ▸ ht', hok', ?_⟩
  refine ((create_idempotent_iff sampleId_injective (reachable_play sampleEnv 0 0 _) ht hcall hok
    rfl rfl ⟨by decide, by decide, rfl⟩ (System.reaches_play _ _ _) ht').1 _ hok').mpr ?_
  exact fun hs => ⟨hs, rfl, rfl, rfl, rfl⟩

/-- The request of the examples, with health data declared. -/
def healthRequest : CreateRequest :=
  { sampleRequest with declaredCategories := some {.healthInformation} }

/-- A request that now declares health data is answered with the workflow that was
created without; there is no conflict. -/
theorem create_healthRequest_not_idempotent :
    ∃ t w t' w', createdRun.threads[0]? = some t ∧ t.call = .create sampleRequest ∧
      t.rest.outcome = some (.ok w) ∧ (createAgain healthRequest).threads[1]? = some t' ∧
      t'.call = .create healthRequest ∧ t'.rest.outcome = some (.ok w') ∧
      healthRequest.Admitted sampleEnv ∧ ¬sampleRequest.SamePayload sampleEnv healthRequest ∧
      w'.workflowId = w.workflowId ∧ w'.processingContext.dataProfile.categories = [] ∧
      ¬Idempotent sampleEnv sampleRequest healthRequest w (.ok w') := by
  have h : (createdRun.threads[0]?.bind fun t => t.rest.returned.bind fun w =>
      (createAgain healthRequest).threads[1]?.bind fun t' => t'.rest.returned.map fun w' =>
        decide (t.call = .create sampleRequest ∧ t'.call = .create healthRequest ∧
          w'.workflowId = w.workflowId ∧ w'.processingContext.dataProfile.categories = [])) =
      some true := by decide
  obtain ⟨t, ht, h⟩ := Option.bind_eq_some_iff.mp h
  obtain ⟨w, hw, h⟩ := Option.bind_eq_some_iff.mp h
  obtain ⟨t', ht', h⟩ := Option.bind_eq_some_iff.mp h
  obtain ⟨w', hw', h⟩ := Option.map_eq_some_iff.mp h
  obtain ⟨hcall, hcall', hid, hcat⟩ := of_decide_eq_true h
  have hdiff : ¬sampleRequest.SamePayload sampleEnv healthRequest := by
    intro hs
    have hd := hs.declaredCategories
    cases hd
  refine ⟨t, w, t', w', ht, hcall, Program.outcome_of_returned hw, ht', hcall',
    Program.outcome_of_returned hw', ⟨by decide, by decide, rfl⟩, hdiff, hid, hcat, fun hi => ?_⟩
  cases hi.2 hdiff

end AgenticDelivery.Api
