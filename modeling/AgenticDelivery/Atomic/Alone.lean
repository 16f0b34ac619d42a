import AgenticDelivery.Atomic.RelyGuarantee

/-! # One caller after another

A sequential run is a run whose callers do not overlap: each makes its whole
call while only the surroundings move. Such a call is a function of the state it
starts in and of what the surroundings do, and every sequential run is one of
the runs of the pool. -/
namespace AgenticDelivery.Atomic

variable {Op : Type} {Reply : Op → Type} {ε α S Call Tick : Type}

/-- Operations while time passes: before each one the surroundings make the
next of their moves. -/
def timed (exec : (op : Op) → S → Reply op × S) (tick : Tick → S → S) (op : Op)
    (p : S × (Nat → Tick)) : Reply op × S × (Nat → Tick) :=
  let r := exec op (tick (p.2 0) p.1)
  (r.1, r.2, fun n => p.2 (n + 1))

namespace System

/-- Caller `tid` makes a whole call from `s`, and nobody else moves. -/
def alone (sys : System Op Reply ε α S Call Tick) (tid : Nat) (call : Call) (s : S)
    (clock : Nat → Tick) : Except ε α × S :=
  let r := (sys.body call).run (timed (sys.exec tid) sys.tick) (s, clock)
  (r.1, r.2.1)

/-- Whole calls, one after another, and outside moves between them: from `n`
calls made and the state `s` to `n'` calls made and the state `s'`. -/
inductive Serial (sys : System Op Reply ε α S Call Tick) (n : Nat) (s : S) : Nat → S → Prop
  | refl : Serial sys n s n s
  | call {n' s'} (h : Serial sys n s n' s') (call : Call) (clock : Nat → Tick) :
      Serial sys n s (n' + 1) (sys.alone n' call s' clock).2
  | tick {n' s'} (h : Serial sys n s n' s') (t : Tick) : Serial sys n s n' (sys.tick t s')

variable {sys : System Op Reply ε α S Call Tick} {c : Config Op Reply ε α S Call}

theorem set_of_getElem? {β : Type} {l : List β} {i : Nat} {x : β} (h : l[i]? = some x) :
    l.set i x = l := by
  obtain ⟨hlt, rfl⟩ := List.getElem?_eq_some_iff.mp h
  exact List.set_getElem_self hlt

/-- A caller that is scheduled, with one outside move before each of its
operations, until it ends. -/
theorem reaches_run (sys : System Op Reply ε α S Call Tick) (p : Program Op Reply ε α) {tid : Nat}
    {c : Config Op Reply ε α S Call} {t : Thread Op Reply ε α S Call}
    (ht : c.threads[tid]? = some t) (hr : t.rest = p) (clock : Nat → Tick) :
    ∃ t', sys.Reaches c ⟨(p.run (timed (sys.exec tid) sys.tick) (c.state, clock)).2.1,
        c.threads.set tid t'⟩ ∧ t'.call = t.call ∧
      t'.rest.outcome = some (p.run (timed (sys.exec tid) sys.tick) (c.state, clock)).1 := by
  induction p generalizing c t clock with
  | done value =>
    refine ⟨t, ?_, rfl, by rw [hr]; rfl⟩
    rw [Program.run_done, set_of_getElem? ht]
    exact .refl
  | raise error =>
    refine ⟨t, ?_, rfl, by rw [hr]; rfl⟩
    rw [Program.run_raise, set_of_getElem? ht]
    exact .refl
  | call op next ih =>
    have ht1 : ({ c with state := sys.tick (clock 0) c.state } :
        Config Op Reply ε α S Call).threads[tid]? = some t := ht
    have hstep := sys.step_act ht1 hr
    obtain ⟨t', hreach, hcall, hout⟩ := ih _ (sys.advance_self op next ht1) rfl
      fun n => clock (n + 1)
    refine ⟨t', ?_, hcall, hout⟩
    have h1 : sys.Reaches c (sys.advance { c with state := sys.tick (clock 0) c.state } tid t op
        next) := by
      rw [← hstep]
      exact (Reaches.refl.step (.tick (clock 0))).step (.act tid)
    have h2 := h1.trans hreach
    simp only [advance, List.set_set] at h2
    exact h2

/-- **A call alone is a run of the pool**, by the caller that comes next. -/
theorem reaches_alone (sys : System Op Reply ε α S Call Tick) (c : Config Op Reply ε α S Call)
    (call : Call) (clock : Nat → Tick) :
    ∃ t, sys.Reaches c ⟨(sys.alone c.threads.length call c.state clock).2, c.threads ++ [t]⟩ ∧
      t.call = call ∧
      t.rest.outcome = some (sys.alone c.threads.length call c.state clock).1 := by
  have ht : (sys.start c call).threads[c.threads.length]? =
      some ⟨call, c.state, [], sys.body call⟩ := by
    rw [start, List.getElem?_concat_length]
  obtain ⟨t, hreach, hcall, hout⟩ := sys.reaches_run (sys.body call) ht rfl clock
  refine ⟨t, ?_, hcall, hout⟩
  have h := (Reaches.refl.step (.spawn call) : sys.Reaches c (sys.start c call)).trans hreach
  simp only [start, List.set_append_right _ _ (Nat.le_refl _), Nat.sub_self,
    List.set_cons_zero] at h
  exact h

/-- Every sequential run is a run of the pool. -/
theorem Serial.reaches {n' : Nat} {s' : S} (h : sys.Serial c.threads.length c.state n' s') :
    ∃ c', sys.Reaches c c' ∧ c'.state = s' ∧ c'.threads.length = n' := by
  induction h with
  | refl => exact ⟨c, .refl, rfl, rfl⟩
  | call _ call clock ih =>
    obtain ⟨c', hreach, rfl, rfl⟩ := ih
    obtain ⟨t, hcall, -, -⟩ := sys.reaches_alone c' call clock
    exact ⟨_, hreach.trans hcall, rfl, by simp⟩
  | tick _ t ih =>
    obtain ⟨c', hreach, rfl, rfl⟩ := ih
    exact ⟨_, hreach.step (.tick t), rfl, rfl⟩

theorem Serial.trans {n n' n'' : Nat} {s s' s'' : S} (h : sys.Serial n s n' s')
    (h' : sys.Serial n' s' n'' s'') : sys.Serial n s n'' s'' := by
  induction h' with
  | refl => exact h
  | call _ call clock ih => exact ih.call call clock
  | tick _ t ih => exact ih.tick t

end System

end AgenticDelivery.Atomic
