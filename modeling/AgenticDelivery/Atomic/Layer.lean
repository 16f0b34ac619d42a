import AgenticDelivery.Atomic.Alone
import AgenticDelivery.Atomic.Judgment

/-! # A layer over a service

The callers of an outer pool make operations of their own and, in between, one call of
an inner service, operation by operation. `Over` says of the rest of an outer call and
the rest of an inner one that the operations they share are the same, in the same order.
`Layer.reaches` is what follows for whole pools: every run of the outer pool, seen
through what the two states share, is a run of the inner one. `run_within` is what
follows for one outer caller that nobody interrupts. -/
namespace AgenticDelivery.Atomic

variable {Op Op₂ : Type} {Reply : Op → Type} {Reply₂ : Op₂ → Type}
  {ε ε₂ α β γ S S₂ Call Call₂ Tick Tick₂ : Type}

/-! ## Handlers -/

namespace Program

/-- Run a program, and `handler` on the error it raises. -/
def handle : Program Op Reply ε α → (ε → Program Op Reply ε₂ α) → Program Op Reply ε₂ α
  | .done value, _ => .done value
  | .raise error, handler => handler error
  | .call op next, handler => .call op fun reply => (next reply).handle handler

@[simp] theorem handle_done (value : α) (handler : ε → Program Op Reply ε₂ α) :
    (done value : Program Op Reply ε α).handle handler = .done value := rfl

@[simp] theorem handle_raise (error : ε) (handler : ε → Program Op Reply ε₂ α) :
    (raise error : Program Op Reply ε α).handle handler = handler error := rfl

@[simp] theorem handle_call (op : Op) (next : Reply op → Program Op Reply ε α)
    (handler : ε → Program Op Reply ε₂ α) : (call op next).handle handler =
      .call op fun reply => (next reply).handle handler := rfl

end Program

/-! ## Shared operations -/

/-- The operations of an inner service among those of an outer one. -/
structure Embedding (Op : Type) (Reply : Op → Type) (Op₂ : Type) (Reply₂ : Op₂ → Type) where
  op : Op → Op₂
  reply : (o : Op) → Reply₂ (op o) → Reply o
  /-- the inner event that an outer one is, if any -/
  event : Event Op₂ Reply₂ → Option (Event Op Reply)
  event_op : ∀ o r, event ⟨op o, r⟩ = some ⟨o, reply o r⟩

/-- The operation is none of the inner service. -/
def Embedding.Own (e : Embedding Op Reply Op₂ Reply₂) (op : Op₂) : Prop :=
  ∀ r, e.event ⟨op, r⟩ = none

namespace Program
variable (e : Embedding Op Reply Op₂ Reply₂)

/-- An inner program as part of an outer one, with its errors among the outer ones. -/
def inner (lift : ε → ε₂) : Program Op Reply ε α → Program Op₂ Reply₂ ε₂ α
  | .done value => .done value
  | .raise error => .raise (lift error)
  | .call o next => .call (e.op o) fun r => (next (e.reply o r)).inner lift

/-- The inner program, and what the outer one does with its outcome. -/
def within : Program Op Reply ε α → (Except ε α → Program Op₂ Reply₂ ε₂ β) →
    Program Op₂ Reply₂ ε₂ β
  | .done value, k => k (.ok value)
  | .raise error, k => k (.error error)
  | .call o next, k => .call (e.op o) fun r => (next (e.reply o r)).within k

/-- What stands behind an inner call, within a handler and in front of more, is what is
done with its outcome. -/
theorem inner_handle (lift : ε → ε₂) (p : Program Op Reply ε α)
    (f : α → Program Op₂ Reply₂ ε₂ β) {ε₃ : Type} (handler : ε₂ → Program Op₂ Reply₂ ε₃ β)
    (g : β → Program Op₂ Reply₂ ε₃ γ) :
    ((p.inner e lift >>= f).handle handler >>= g) = p.within e fun o =>
      match o with
      | .ok value => (f value).handle handler >>= g
      | .error error => handler (lift error) >>= g := by
  induction p with
  | done value => rfl
  | raise error => rfl
  | call o next ih => exact congrArg (Program.call (e.op o)) (funext fun r => ih (e.reply o r))

/-- The operations that the rest of an outer call shares with the inner service are those
of the rest of an inner call, and when the outer one ends, `finish` holds of its outcome
and of what the inner one has returned or raised by then. -/
inductive Over (finish : Except ε₂ β → Option (Except ε α) → Prop) :
    Program Op₂ Reply₂ ε₂ β → Program Op Reply ε α → Prop
  | ended {q p o} (outcome : q.outcome = some o) (finished : finish o p.outcome) : Over finish q p
  | own {op next p} (own : e.Own op) (rest : ∀ r, Over finish (next r) p) :
      Over finish (.call op next) p
  | shared {o next next'} (rest : ∀ r, Over finish (next r) (next' (e.reply o r))) :
      Over finish (.call (e.op o) next) (.call o next')

variable {e} {finish : Except ε₂ β → Option (Except ε α) → Prop}

/-- An inner call, and outer code that ends as it should on each outcome. -/
theorem Over.within {p : Program Op Reply ε α} {k : Except ε α → Program Op₂ Reply₂ ε₂ β}
    (hok : ∀ value, Over e finish (k (.ok value)) (.done value))
    (herror : ∀ error, Over e finish (k (.error error)) (.raise error)) :
    Over e finish (p.within e k) p := by
  induction p with
  | done value => exact hok value
  | raise error => exact herror error
  | call o next ih => exact .shared fun r => ih (e.reply o r)

/-- An inner call, judged by its operations, and what stands behind it by what it owes
after any of them. -/
theorem Keeps.inner {rules : Rules Op₂ Reply₂ ε₂ β} {lift : ε → ε₂} {p : Program Op Reply ε α}
    {f : α → Program Op₂ Reply₂ ε₂ β} {log : List (Event Op₂ Reply₂)}
    (fits : ∀ more o, (∀ x ∈ more, (e.event x).isSome) → rules.fits (log ++ more) (e.op o))
    (done : ∀ more value, (∀ x ∈ more, (e.event x).isSome) → (f value).Keeps rules (log ++ more))
    (raise : ∀ more error, (∀ x ∈ more, (e.event x).isSome) →
      rules.ends (log ++ more) (.error (lift error))) :
    (p.inner e lift >>= f).Keeps rules log := by
  have main : ∀ (p : Program Op Reply ε α) (more : List (Event Op₂ Reply₂)),
      (∀ x ∈ more, (e.event x).isSome) → (p.inner e lift >>= f).Keeps rules (log ++ more) := by
    intro p
    induction p with
    | done value => exact fun more hm => done more value hm
    | raise error => exact fun more hm => raise more error hm
    | call o next ih =>
      intro more hm
      refine ⟨fits more o hm, fun r _ => ?_⟩
      rw [List.append_assoc]
      refine ih (e.reply o r) _ fun x hx => ?_
      rcases List.mem_append.mp hx with hx | hx
      · exact hm x hx
      · rw [List.mem_singleton.mp hx, e.event_op]
        rfl
  have := main p [] fun x hx => by cases hx
  rwa [List.append_nil] at this

/-- A program within a handler and in front of more, judged by rules of its own. -/
theorem Keeps.handle {rules : Rules Op Reply ε α} {rules' : Rules Op Reply ε₂ β}
    {p : Program Op Reply ε α} {handler : ε → Program Op Reply ε₂ α}
    {g : α → Program Op Reply ε₂ β} {log : List (Event Op Reply)} (h : p.Keeps rules log)
    (may : ∀ op r, rules'.may op r → rules.may op r)
    (fits : ∀ log op, rules.fits log op → rules'.fits log op)
    (done : ∀ log value, rules.ends log (.ok value) → (g value).Keeps rules' log)
    (raise : ∀ log error, rules.ends log (.error error) →
      (handler error >>= g).Keeps rules' log) :
    (p.handle handler >>= g).Keeps rules' log := by
  induction p generalizing log with
  | done value => exact done log value h
  | raise error => exact raise log error h
  | call op next ih => exact ⟨fits log op h.1, fun r hr => ih r (h.2 r (may op r hr))⟩

theorem Over.finished {q : Program Op₂ Reply₂ ε₂ β} {p : Program Op Reply ε α} {o : Except ε₂ β}
    (h : Over e finish q p) (ho : q.outcome = some o) : finish o p.outcome := by
  cases h with
  | ended outcome finished =>
    cases ho.symm.trans outcome
    exact finished
  | own | shared => cases ho

/-! ## One outer caller alone -/

section Run
variable {exec₂ : (op : Op₂) → S₂ → Reply₂ op × S₂} {s₂ s₂' : S₂} {value : β}

theorem run_bind_ok {γ : Type} {q : Program Op₂ Reply₂ ε₂ β}
    (h : q.run exec₂ s₂ = (.ok value, s₂')) (f : β → Program Op₂ Reply₂ ε₂ γ) :
    (q >>= f).run exec₂ s₂ = (f value).run exec₂ s₂' := by
  induction q generalizing s₂ with
  | done _ =>
    cases h
    rfl
  | raise _ => cases h
  | call op next ih => exact ih _ h

theorem run_handle_ok {q : Program Op₂ Reply₂ ε₂ β}
    (h : q.run exec₂ s₂ = (.ok value, s₂')) (handler : ε₂ → Program Op₂ Reply₂ ε β) :
    (q.handle handler).run exec₂ s₂ = (.ok value, s₂') := by
  induction q generalizing s₂ with
  | done _ =>
    cases h
    rfl
  | raise _ => cases h
  | call op next ih => exact ih _ h

end Run

/-- An inner call within an outer one, when only time passes besides, is the inner call
alone. -/
theorem run_within {exec₂ : (op : Op₂) → S₂ → Reply₂ op × S₂} {exec : (op : Op) → S → Reply op × S}
    {tick₂ : Tick₂ → S₂ → S₂} {tick : Tick → S → S} {tickOf : Tick₂ → Tick} {Shares : S₂ → S → Prop}
    (step : ∀ t o s₂ s, Shares s₂ s →
      Shares (exec₂ (e.op o) (tick₂ t s₂)).2 (exec o (tick (tickOf t) s)).2 ∧
        e.reply o (exec₂ (e.op o) (tick₂ t s₂)).1 = (exec o (tick (tickOf t) s)).1)
    (p : Program Op Reply ε α) (k : Except ε α → Program Op₂ Reply₂ ε₂ β) {s₂ : S₂} {s : S}
    (h : Shares s₂ s) (clock : Nat → Tick₂) : ∃ s₂' clock',
      Shares s₂' (p.run (timed exec tick) (s, fun n => tickOf (clock n))).2.1 ∧
      (p.within e k).run (timed exec₂ tick₂) (s₂, clock) =
        (k (p.run (timed exec tick) (s, fun n => tickOf (clock n))).1).run (timed exec₂ tick₂)
          (s₂', clock') := by
  induction p generalizing s₂ s clock with
  | done value => exact ⟨s₂, clock, h, rfl⟩
  | raise error => exact ⟨s₂, clock, h, rfl⟩
  | call o next ih =>
    obtain ⟨hshares, hreply⟩ := step (clock 0) o s₂ s h
    obtain ⟨s₂', clock', h', hrun⟩ := ih _ hshares fun n => clock (n + 1)
    refine ⟨s₂', clock', h', ?_⟩
    rw [within, run_call]
    simp only [timed] at hrun ⊢
    rw [hreply]
    exact hrun

end Program

/-! ## Whole pools -/

/-- An outer system over an inner one: each outer call makes the operations of one inner
call, or of none. -/
structure Layer (out : System Op₂ Reply₂ ε₂ β S₂ Call₂ Tick₂)
    (sys : System Op Reply ε α S Call Tick) (e : Embedding Op Reply Op₂ Reply₂) where
  callOf : Call₂ → Call
  /-- what the outer state has in common with the inner one -/
  Shares : S₂ → S → Prop
  finish : Call₂ → Except ε₂ β → Option (Except ε α) → Prop
  body : ∀ call, Program.Over e (finish call) (out.body call) (sys.body (callOf call))
  own : ∀ tid op s₂ s, e.Own op → Shares s₂ s → Shares (out.exec tid op s₂).2 s
  shared : ∀ tid o s₂ s, Shares s₂ s →
    Shares (out.exec tid (e.op o) s₂).2 (sys.exec tid o s).2 ∧
      e.reply o (out.exec tid (e.op o) s₂).1 = (sys.exec tid o s).1
  tick : ∀ t₂ s₂ s, Shares s₂ s → ∃ t, Shares (out.tick t₂ s₂) (sys.tick t s)

namespace Layer
variable {out : System Op₂ Reply₂ ε₂ β S₂ Call₂ Tick₂} {sys : System Op Reply ε α S Call Tick}
  {e : Embedding Op Reply Op₂ Reply₂} (L : Layer out sys e)

/-- The outer caller makes the inner caller's call. -/
structure Makes (t₂ : Thread Op₂ Reply₂ ε₂ β S₂ Call₂)
    (t : Thread Op Reply ε α S Call) : Prop where
  call : t.call = L.callOf t₂.call
  born : L.Shares t₂.born t.born
  rest : Program.Over e (L.finish t₂.call) t₂.rest t.rest
  log : t.log = t₂.log.filterMap e.event

/-- The outer pool carries the inner one. -/
structure Carries (c₂ : Config Op₂ Reply₂ ε₂ β S₂ Call₂)
    (c : Config Op Reply ε α S Call) : Prop where
  shares : L.Shares c₂.state c.state
  length : c.threads.length = c₂.threads.length
  makes : ∀ (tid : Nat) t₂, c₂.threads[tid]? = some t₂ →
    ∃ t, c.threads[tid]? = some t ∧ L.Makes t₂ t

variable {L} {c₂ c₂' : Config Op₂ Reply₂ ε₂ β S₂ Call₂} {c : Config Op Reply ε α S Call}

theorem Carries.start (h : L.Carries c₂ c) (call : Call₂) :
    L.Carries (out.start c₂ call) (sys.start c (L.callOf call)) where
  shares := h.shares
  length := by simp only [System.start, List.length_append, h.length, List.length_singleton]
  makes tid t₂ ht₂ := by
    rcases System.start_threads ht₂ with ht₂ | ⟨rfl, rfl⟩
    · obtain ⟨t, ht, hm⟩ := h.makes tid t₂ ht₂
      have hlt := (List.getElem?_eq_some_iff.mp ht).1
      exact ⟨t, by rw [System.start, List.getElem?_append_left hlt]; exact ht, hm⟩
    · rw [← h.length]
      exact ⟨_, List.getElem?_concat_length, rfl, h.shares, L.body call, rfl⟩

/-- An outer caller moves, and its inner one with it or not at all. -/
theorem Carries.advance (h : L.Carries c₂ c) {tid : Nat} {t₂ : Thread Op₂ Reply₂ ε₂ β S₂ Call₂}
    {op : Op₂} {next : Reply₂ op → Program Op₂ Reply₂ ε₂ β} (ht₂ : c₂.threads[tid]? = some t₂)
    (hr : t₂.rest = .call op next) :
    ∃ c', sys.Reaches c c' ∧ L.Carries (out.advance c₂ tid t₂ op next) c' := by
  obtain ⟨t, ht, hm⟩ := h.makes tid t₂ ht₂
  have hover := hm.rest
  rw [hr] at hover
  generalize hp : t.rest = p at hover
  have hlen : (out.advance c₂ tid t₂ op next).threads.length = c₂.threads.length :=
    List.length_set
  cases hover with
  | ended outcome => cases outcome
  | own own rest =>
    refine ⟨c, .refl, L.own tid op _ _ own h.shares, h.length.trans hlen.symm, fun i u₂ hu₂ => ?_⟩
    rcases System.advance_threads ht₂ hu₂ with ⟨rfl, rfl⟩ | ⟨-, hu₂⟩
    · refine ⟨t, ht, hm.call, hm.born, hp ▸ rest _, ?_⟩
      rw [List.filterMap_append, ← hm.log, List.filterMap_cons, own]
      simp
    · exact h.makes i u₂ hu₂
  | @shared o _ next' rest =>
    obtain ⟨hs, hreply⟩ := L.shared tid o _ _ h.shares
    have hstep := sys.step_act ht hp
    refine ⟨_, System.Reaches.refl.step (.act tid), ?_⟩
    rw [hstep]
    refine ⟨hs, ?_, fun i u₂ hu₂ => ?_⟩
    · rw [hlen, ← h.length]
      exact List.length_set
    · rcases System.advance_threads ht₂ hu₂ with ⟨rfl, rfl⟩ | ⟨hne, hu₂⟩
      · have hlt := (List.getElem?_eq_some_iff.mp ht).1
        refine ⟨_, List.getElem?_set_self hlt, hm.call, hm.born, ?_, ?_⟩
        · rw [← hreply]
          exact rest _
        · rw [hm.log, List.filterMap_append, List.filterMap_cons, e.event_op, hreply]
          rfl
      · obtain ⟨u, hu, hmu⟩ := h.makes i u₂ hu₂
        exact ⟨u, by rw [System.advance, List.getElem?_set_ne (Ne.symm hne)]; exact hu, hmu⟩

theorem reaches (h : out.Reaches c₂ c₂') (hc : L.Carries c₂ c) :
    ∃ c', sys.Reaches c c' ∧ L.Carries c₂' c' := by
  induction h with
  | refl => exact ⟨c, .refl, hc⟩
  | @step c₁ h₁ m ih =>
    obtain ⟨c', hreach, hc'⟩ := ih
    rcases out.step_cases c₁ m with
      he | ⟨call, he⟩ | ⟨tid, t₂, op, next, ht₂, hr, he⟩ | ⟨t₂, he⟩ <;> rw [he]
    · exact ⟨c', hreach, hc'⟩
    · exact ⟨_, hreach.step (.spawn (L.callOf call)), hc'.start call⟩
    · obtain ⟨c'', hreach', hc''⟩ := hc'.advance ht₂ hr
      exact ⟨c'', hreach.trans hreach', hc''⟩
    · obtain ⟨t, ht⟩ := L.tick t₂ _ _ hc'.shares
      exact ⟨_, hreach.step (.tick t), ht, hc'.length, hc'.makes⟩

end Layer

end AgenticDelivery.Atomic
