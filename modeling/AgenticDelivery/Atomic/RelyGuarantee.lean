import AgenticDelivery.Atomic.Pool

/-! # Rely and guarantee for pools of callers

To prove something about every interleaving, each program is checked once, on
its own, against an environment that may do anything its discipline allows
between two of the program's steps. `Safe` is that check, by recursion on the
program; `Reaches.safe` says that when every program passes it, every
configuration of every schedule is safe. `Own tid` is the part of the state
that caller `tid` may rely on nobody else to touch. -/
namespace AgenticDelivery.Atomic

variable {Op : Type} {Reply : Op → Type} {ε α β S Call Tick : Type}

/-- What every step keeps, how the state may move, and what the steps of the
others leave alone. -/
structure Discipline (S : Type) where
  Inv : S → Prop
  Evolve : S → S → Prop
  Own : Nat → S → S → Prop
  evolve_refl : ∀ s, Evolve s s
  evolve_trans : ∀ {s s' s''}, Evolve s s' → Evolve s' s'' → Evolve s s''
  own_refl : ∀ tid s, Own tid s s
  own_trans : ∀ {tid s s' s''}, Own tid s s' → Own tid s' s'' → Own tid s s''

/-- What caller `tid` may find when the others have moved. -/
structure Discipline.Rely (D : Discipline S) (tid : Nat) (s s' : S) : Prop where
  inv : D.Inv s'
  evolve : D.Evolve s s'
  own : D.Own tid s s'

/-- What a step of caller `tid` owes to the others. -/
structure Discipline.Kept (D : Discipline S) (tid : Nat) (s s' : S) : Prop where
  inv : D.Inv s'
  evolve : D.Evolve s s'
  own : ∀ other, other ≠ tid → D.Own other s s'

/-- What a call promises: of each of its operations, given its log so far, and
of its outcome. -/
structure Spec (Op : Type) (Reply : Op → Type) (ε α S : Type) where
  guar : List (Event Op Reply) → (op : Op) → Reply op → S → S → Prop
  post : List (Event Op Reply) → Except ε α → S → Prop

namespace Discipline
variable {D : Discipline S} {tid : Nat} {s s' s'' : S}

theorem Rely.refl (h : D.Inv s) : D.Rely tid s s := ⟨h, D.evolve_refl s, D.own_refl tid s⟩

theorem Rely.trans (h : D.Rely tid s s') (h' : D.Rely tid s' s'') : D.Rely tid s s'' :=
  ⟨h'.inv, D.evolve_trans h.evolve h'.evolve, D.own_trans h.own h'.own⟩

theorem Kept.rely (h : D.Kept tid s s') {other : Nat} (ho : other ≠ tid) : D.Rely other s s' :=
  ⟨h.inv, h.evolve, h.own other ho⟩

theorem Kept.refl (h : D.Inv s) : D.Kept tid s s :=
  ⟨h, D.evolve_refl s, fun other _ => D.own_refl other s⟩

/-- The discipline that asks for nothing. What is safe under it follows from the text
of the program alone, whatever the stores hold. -/
def free : Discipline S where
  Inv _ := True
  Evolve _ _ := True
  Own _ _ _ := True
  evolve_refl _ := trivial
  evolve_trans _ _ := trivial
  own_refl _ _ := trivial
  own_trans _ _ := trivial

theorem free_kept (tid : Nat) (s s' : S) : free.Kept tid s s' :=
  ⟨trivial, trivial, fun _ _ => trivial⟩

theorem free_rely (tid : Nat) (s s' : S) : free.Rely tid s s' := ⟨trivial, trivial, trivial⟩

end Discipline

/-- The program keeps the discipline and its promises from `s` on, whatever the
others do before each of its steps. -/
def Safe (exec : Nat → (op : Op) → S → Reply op × S) (D : Discipline S) (tid : Nat)
    (spec : Spec Op Reply ε α S) : Program Op Reply ε α → List (Event Op Reply) → S → Prop
  | .done value, log, s => ∀ s', D.Rely tid s s' → spec.post log (.ok value) s'
  | .raise error, log, s => ∀ s', D.Rely tid s s' → spec.post log (.error error) s'
  | .call op next, log, s => ∀ s', D.Rely tid s s' →
      D.Kept tid s' (exec tid op s').2 ∧
      spec.guar log op (exec tid op s').1 s' (exec tid op s').2 ∧
      Safe exec D tid spec (next (exec tid op s').1) (log ++ [⟨op, (exec tid op s').1⟩])
        (exec tid op s').2

section Rules
variable {exec : Nat → (op : Op) → S → Reply op × S} {D : Discipline S} {tid : Nat}
  {spec : Spec Op Reply ε α S} {log : List (Event Op Reply)} {s s' : S}

/-- Safety is stable: it survives what the others may do. -/
theorem Safe.stable {p : Program Op Reply ε α} (h : Safe exec D tid spec p log s)
    (hr : D.Rely tid s s') : Safe exec D tid spec p log s' := by
  cases p with
  | done value => exact fun t ht => h t (hr.trans ht)
  | raise error => exact fun t ht => h t (hr.trans ht)
  | call op next => exact fun t ht => h t (hr.trans ht)

theorem Safe.done {value : α} (h : ∀ s', D.Rely tid s s' → spec.post log (.ok value) s') :
    Safe exec D tid spec (.done value) log s := h

theorem Safe.raise {error : ε} (h : ∀ s', D.Rely tid s s' → spec.post log (.error error) s') :
    Safe exec D tid spec (.raise error) log s := h

theorem Safe.call {op : Op} {next : Reply op → Program Op Reply ε α}
    (h : ∀ s', D.Rely tid s s' → D.Kept tid s' (exec tid op s').2 ∧
      spec.guar log op (exec tid op s').1 s' (exec tid op s').2 ∧
      Safe exec D tid spec (next (exec tid op s').1) (log ++ [⟨op, (exec tid op s').1⟩])
        (exec tid op s').2) :
    Safe exec D tid spec (.call op next) log s := h

/-- An operation that leaves the state alone owes the others nothing. -/
theorem Safe.query {op : Op} {next : Reply op → Program Op Reply ε α}
    (hq : ∀ s, (exec tid op s).2 = s)
    (h : ∀ s', D.Rely tid s s' → spec.guar log op (exec tid op s').1 s' s' ∧
      Safe exec D tid spec (next (exec tid op s').1) (log ++ [⟨op, (exec tid op s').1⟩]) s') :
    Safe exec D tid spec (.call op next) log s := by
  intro s' hr
  obtain ⟨hg, hs⟩ := h s' hr
  rw [hq s']
  exact ⟨.refl hr.inv, hg, hs⟩

/-- A caller that runs alone meets its postcondition. -/
theorem Safe.run {p : Program Op Reply ε α} (h : Safe exec D tid spec p log s) (hi : D.Inv s) :
    D.Inv (p.run (exec tid) s).2 ∧ D.Evolve s (p.run (exec tid) s).2 ∧
      ∃ log', spec.post (log ++ log') (p.run (exec tid) s).1 (p.run (exec tid) s).2 := by
  induction p generalizing log s with
  | done value => exact ⟨hi, D.evolve_refl s, [], by simpa using h s (.refl hi)⟩
  | raise error => exact ⟨hi, D.evolve_refl s, [], by simpa using h s (.refl hi)⟩
  | call op next ih =>
    obtain ⟨hk, -, hs⟩ := h s (.refl hi)
    obtain ⟨hi', he, log', hp⟩ := ih _ hs hk.inv
    exact ⟨hi', D.evolve_trans hk.evolve he, ⟨op, (exec tid op s).1⟩ :: log', by simpa using hp⟩

end Rules

/-! ## Whole pools -/

namespace System
variable {sys : System Op Reply ε α S Call Tick} {D : Discipline S}
  {spec : Call → S → Spec Op Reply ε α S} {c c' : Config Op Reply ε α S Call}

/-- Every program of the system, and every outside move, keeps the discipline. -/
structure Disciplined (sys : System Op Reply ε α S Call Tick) (D : Discipline S)
    (spec : Call → S → Spec Op Reply ε α S) : Prop where
  body : ∀ tid call s, D.Inv s → Safe sys.exec D tid (spec call s) (sys.body call) [] s
  tick : ∀ t tid s, D.Inv s → D.Rely tid s (sys.tick t s)

/-- The state is good and every caller is safe from it. -/
structure SafeAt (sys : System Op Reply ε α S Call Tick) (D : Discipline S)
    (spec : Call → S → Spec Op Reply ε α S) (c : Config Op Reply ε α S Call) : Prop where
  inv : D.Inv c.state
  safe : ∀ tid t, c.threads[tid]? = some t →
    Safe sys.exec D tid (spec t.call t.born) t.rest t.log c.state
  born : ∀ (tid : Nat) (t : Thread Op Reply ε α S Call), c.threads[tid]? = some t →
    D.Inv t.born ∧ D.Evolve t.born c.state

theorem SafeAt.initial {s : S} (h : D.Inv s) : SafeAt sys D spec ⟨s, []⟩ :=
  ⟨h, fun _ _ ht => by simp at ht, fun _ _ ht => by simp at ht⟩

/-- What the next operation of a safe caller does. -/
theorem SafeAt.next (hs : SafeAt sys D spec c) {tid : Nat} {t : Thread Op Reply ε α S Call}
    {op : Op} {next : Reply op → Program Op Reply ε α} (ht : c.threads[tid]? = some t)
    (hr : t.rest = .call op next) :
    D.Kept tid c.state (sys.exec tid op c.state).2 ∧
    (spec t.call t.born).guar t.log op (sys.exec tid op c.state).1 c.state
      (sys.exec tid op c.state).2 ∧
    Safe sys.exec D tid (spec t.call t.born) (next (sys.exec tid op c.state).1)
      (t.log ++ [⟨op, (sys.exec tid op c.state).1⟩]) (sys.exec tid op c.state).2 := by
  have h := hs.safe tid t ht
  rw [hr] at h
  exact h c.state (.refl hs.inv)

/-- The outcome of a safe caller that has ended. -/
theorem SafeAt.post (hs : SafeAt sys D spec c) {tid : Nat} {t : Thread Op Reply ε α S Call}
    {o : Except ε α} (ht : c.threads[tid]? = some t) (ho : t.rest.outcome = some o) :
    (spec t.call t.born).post t.log o c.state := by
  have h := hs.safe tid t ht
  cases hr : t.rest with
  | done value =>
    rw [hr] at h ho
    cases ho
    exact h c.state (.refl hs.inv)
  | raise error =>
    rw [hr] at h ho
    cases ho
    exact h c.state (.refl hs.inv)
  | call op next =>
    rw [hr] at ho
    cases ho

theorem SafeAt.start (hd : Disciplined sys D spec) (hs : SafeAt sys D spec c) (call : Call) :
    SafeAt sys D spec (sys.start c call) := by
  refine ⟨hs.inv, ?_, ?_⟩
  · intro tid t ht
    rcases start_threads ht with ht | ⟨-, rfl⟩
    · exact hs.safe tid t ht
    · exact hd.body tid call c.state hs.inv
  · intro tid t ht
    rcases start_threads ht with ht | ⟨-, rfl⟩
    · exact hs.born tid t ht
    · exact ⟨hs.inv, D.evolve_refl _⟩

theorem SafeAt.advance (hs : SafeAt sys D spec c) {tid : Nat} {t : Thread Op Reply ε α S Call}
    {op : Op} {next : Reply op → Program Op Reply ε α} (ht : c.threads[tid]? = some t)
    (hr : t.rest = .call op next) : SafeAt sys D spec (sys.advance c tid t op next) := by
  obtain ⟨hk, -, hn⟩ := hs.next ht hr
  refine ⟨hk.inv, ?_, ?_⟩
  · intro i t' ht'
    rcases advance_threads ht ht' with ⟨rfl, rfl⟩ | ⟨hi, ht'⟩
    · exact hn
    · exact (hs.safe i t' ht').stable (hk.rely hi)
  · intro i t' ht'
    rcases advance_threads ht ht' with ⟨rfl, rfl⟩ | ⟨-, ht'⟩
    · exact ⟨(hs.born i t ht).1, D.evolve_trans (hs.born i t ht).2 hk.evolve⟩
    · exact ⟨(hs.born i t' ht').1, D.evolve_trans (hs.born i t' ht').2 hk.evolve⟩

theorem SafeAt.tick (hd : Disciplined sys D spec) (hs : SafeAt sys D spec c) (t : Tick) :
    SafeAt sys D spec { c with state := sys.tick t c.state } := by
  refine ⟨(hd.tick t 0 _ hs.inv).inv, ?_, ?_⟩
  · intro tid t' ht'
    exact (hs.safe tid t' ht').stable (hd.tick t tid _ hs.inv)
  · intro tid t' ht'
    exact ⟨(hs.born tid t' ht').1,
      D.evolve_trans (hs.born tid t' ht').2 (hd.tick t tid _ hs.inv).evolve⟩

/-- **Induction over runs.** A property of configurations that every start,
every operation of a caller that keeps its promises, and every outside move
preserve, holds all along every schedule. -/
theorem Reaches.induct (hd : Disciplined sys D spec) {P : Config Op Reply ε α S Call → Prop}
    (hs : SafeAt sys D spec c) (h0 : P c)
    (start : ∀ c call, SafeAt sys D spec c → P c → P (sys.start c call))
    (advance : ∀ c tid t op next, SafeAt sys D spec c → P c → c.threads[tid]? = some t →
      t.rest = .call op next → P (sys.advance c tid t op next))
    (tick : ∀ c t, SafeAt sys D spec c → P c → P { c with state := sys.tick t c.state })
    (h : sys.Reaches c c') : SafeAt sys D spec c' ∧ P c' := by
  induction h with
  | refl => exact ⟨hs, h0⟩
  | @step c1 _ m ih =>
    obtain ⟨hs1, hp⟩ := ih
    rcases sys.step_cases c1 m with he | ⟨call, he⟩ | ⟨tid, t, op, next, ht, hr, he⟩ | ⟨t, he⟩ <;>
      rw [he]
    · exact ⟨hs1, hp⟩
    · exact ⟨hs1.start hd call, start c1 call hs1 hp⟩
    · exact ⟨hs1.advance ht hr, advance c1 tid t op next hs1 hp ht hr⟩
    · exact ⟨hs1.tick hd t, tick c1 t hs1 hp⟩

/-- **Safety of every interleaving.** -/
theorem Reaches.safe (hd : Disciplined sys D spec) (hs : SafeAt sys D spec c)
    (h : sys.Reaches c c') : SafeAt sys D spec c' :=
  (h.induct hd (P := fun _ => True) hs trivial (fun _ _ _ _ => trivial)
    (fun _ _ _ _ _ _ _ _ _ => trivial) fun _ _ _ _ => trivial).1

/-- The state at the end of a run evolves from the state at its start. -/
theorem Reaches.evolve (hd : Disciplined sys D spec) (hs : SafeAt sys D spec c)
    (h : sys.Reaches c c') : D.Evolve c.state c'.state := by
  refine (h.induct hd (P := fun c1 => D.Evolve c.state c1.state) hs (D.evolve_refl _) ?_ ?_ ?_).2
  · exact fun _ _ _ hp => hp
  · exact fun c1 tid t op next hs1 hp ht hr => D.evolve_trans hp (hs1.next ht hr).1.evolve
  · exact fun c1 t hs1 hp => D.evolve_trans hp (hd.tick t 0 _ hs1.inv).evolve

end System

end AgenticDelivery.Atomic
