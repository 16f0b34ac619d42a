import AgenticDelivery.Atomic.Program

/-! # Interleavings of concurrent callers

A pool holds a shared state and any number of callers. A schedule is a list of
moves: a new call starts, some caller takes its next atomic operation, or the
surroundings move (a clock is read later). A caller that is never scheduled
again has crashed, so schedules cover crashes between any two operations.

Every caller keeps the log of its own calls and the state it started in. Both
are history: no program reads them, statements about runs do. -/
namespace AgenticDelivery.Atomic

variable {Op : Type} {Reply : Op → Type} {ε α S Call Tick : Type}

/-- What a set of callers shares: the meaning of each operation (which may
depend on who calls), the program of each call, and the outside moves. -/
structure System (Op : Type) (Reply : Op → Type) (ε α S Call Tick : Type) where
  exec : Nat → (op : Op) → S → Reply op × S
  body : Call → Program Op Reply ε α
  tick : Tick → S → S

structure Thread (Op : Type) (Reply : Op → Type) (ε α S Call : Type) where
  call : Call
  born : S
  log : List (Event Op Reply)
  rest : Program Op Reply ε α

/-- `t'` is `t` at a later point of the same call. -/
structure Thread.Extends (t t' : Thread Op Reply ε α S Call) : Prop where
  call : t'.call = t.call
  born : t'.born = t.born
  log : t.log <+: t'.log
  ended : ∀ o, t.rest.outcome = some o → t' = t

structure Config (Op : Type) (Reply : Op → Type) (ε α S Call : Type) where
  state : S
  threads : List (Thread Op Reply ε α S Call)

/-- Everything the callers have done. -/
def Config.events (c : Config Op Reply ε α S Call) : List (Event Op Reply) :=
  c.threads.flatMap (·.log)

inductive Move (Call Tick : Type)
  | spawn (call : Call)
  | act (tid : Nat)
  | tick (t : Tick)

namespace System

/-- Start a call. -/
def start (sys : System Op Reply ε α S Call Tick) (c : Config Op Reply ε α S Call) (call : Call) :
    Config Op Reply ε α S Call :=
  { c with threads := c.threads ++ [⟨call, c.state, [], sys.body call⟩] }

/-- Caller `tid`, which is about to call `op`, takes that step. -/
def advance (sys : System Op Reply ε α S Call Tick) (c : Config Op Reply ε α S Call) (tid : Nat)
    (t : Thread Op Reply ε α S Call) (op : Op) (next : Reply op → Program Op Reply ε α) :
    Config Op Reply ε α S Call :=
  let r := sys.exec tid op c.state
  { state := r.2
    threads := c.threads.set tid { t with log := t.log ++ [⟨op, r.1⟩], rest := next r.1 } }

/-- One move. Scheduling a caller that is absent or has ended changes nothing. -/
def step (sys : System Op Reply ε α S Call Tick) (c : Config Op Reply ε α S Call) :
    Move Call Tick → Config Op Reply ε α S Call
  | .spawn call => sys.start c call
  | .act tid =>
    match c.threads[tid]? with
    | none => c
    | some t =>
      match t.rest with
      | .call op next => sys.advance c tid t op next
      | _ => c
  | .tick t => { c with state := sys.tick t c.state }

/-- The configuration a schedule leads to. -/
def play (sys : System Op Reply ε α S Call Tick) (c : Config Op Reply ε α S Call)
    (schedule : List (Move Call Tick)) : Config Op Reply ε α S Call :=
  schedule.foldl sys.step c

/-- `c'` is reached from `c` by some schedule. -/
inductive Reaches (sys : System Op Reply ε α S Call Tick) (c : Config Op Reply ε α S Call) :
    Config Op Reply ε α S Call → Prop
  | refl : Reaches sys c c
  | step {c'} (h : Reaches sys c c') (m : Move Call Tick) : Reaches sys c (sys.step c' m)

/-- `c'` is reached from `c` by moves that `ok` allows. -/
inductive ReachesVia (sys : System Op Reply ε α S Call Tick)
    (ok : Config Op Reply ε α S Call → Move Call Tick → Prop) (c : Config Op Reply ε α S Call) :
    Config Op Reply ε α S Call → Prop
  | refl : ReachesVia sys ok c c
  | step {c'} (h : ReachesVia sys ok c c') (m : Move Call Tick) (hm : ok c' m) :
      ReachesVia sys ok c (sys.step c' m)

/-- `ok` allows each move of the schedule. -/
def Allows (sys : System Op Reply ε α S Call Tick)
    (ok : Config Op Reply ε α S Call → Move Call Tick → Prop) :
    Config Op Reply ε α S Call → List (Move Call Tick) → Prop
  | _, [] => True
  | c, m :: rest => ok c m ∧ Allows sys ok (sys.step c m) rest

instance Allows.decidable (sys : System Op Reply ε α S Call Tick)
    (ok : Config Op Reply ε α S Call → Move Call Tick → Prop) [∀ c m, Decidable (ok c m)] :
    ∀ (schedule : List (Move Call Tick)) (c : Config Op Reply ε α S Call),
      Decidable (sys.Allows ok c schedule)
  | [], _ => .isTrue trivial
  | m :: rest, c =>
    have := Allows.decidable sys ok rest (sys.step c m)
    inferInstanceAs (Decidable (ok c m ∧ sys.Allows ok (sys.step c m) rest))

variable {sys : System Op Reply ε α S Call Tick} {c c' c'' : Config Op Reply ε α S Call}

theorem Reaches.trans (h : sys.Reaches c c') (h' : sys.Reaches c' c'') : sys.Reaches c c'' := by
  induction h' with
  | refl => exact h
  | step _ m ih => exact ih.step m

theorem Reaches.play (h : sys.Reaches c c') (schedule : List (Move Call Tick)) :
    sys.Reaches c (sys.play c' schedule) := by
  induction schedule generalizing c' with
  | nil => exact h
  | cons m rest ih => exact ih (h.step m)

theorem reaches_play (sys : System Op Reply ε α S Call Tick) (c : Config Op Reply ε α S Call)
    (schedule : List (Move Call Tick)) : sys.Reaches c (sys.play c schedule) :=
  Reaches.refl.play schedule

theorem step_act {tid : Nat} {t : Thread Op Reply ε α S Call} {op : Op}
    {next : Reply op → Program Op Reply ε α} (ht : c.threads[tid]? = some t)
    (hr : t.rest = .call op next) : sys.step c (.act tid) = sys.advance c tid t op next := by
  simp only [step, ht, hr]

/-- What a move can do: start a call, take a caller's next operation, move the
surroundings, or nothing. -/
theorem step_cases (sys : System Op Reply ε α S Call Tick) (c : Config Op Reply ε α S Call)
    (m : Move Call Tick) :
    sys.step c m = c ∨ (∃ call, sys.step c m = sys.start c call) ∨
    (∃ tid t op next, c.threads[tid]? = some t ∧ t.rest = .call op next ∧
      sys.step c m = sys.advance c tid t op next) ∨
    (∃ t, sys.step c m = { c with state := sys.tick t c.state }) := by
  cases m with
  | spawn call => exact .inr (.inl ⟨call, rfl⟩)
  | tick t => exact .inr (.inr (.inr ⟨t, rfl⟩))
  | act tid =>
    cases ht : c.threads[tid]? with
    | none => left; simp only [step, ht]
    | some t =>
      cases hr : t.rest with
      | done value => left; simp only [step, ht, hr]
      | raise error => left; simp only [step, ht, hr]
      | call op next => exact .inr (.inr (.inl ⟨tid, t, op, next, ht, hr, step_act ht hr⟩))

/-- A caller after an operation: the one that moved, or an unchanged one. -/
theorem advance_threads {tid i : Nat} {t t' : Thread Op Reply ε α S Call} {op : Op}
    {next : Reply op → Program Op Reply ε α} (ht : c.threads[tid]? = some t)
    (h : (sys.advance c tid t op next).threads[i]? = some t') :
    (i = tid ∧ t' = { t with
        log := t.log ++ [⟨op, (sys.exec tid op c.state).1⟩]
        rest := next (sys.exec tid op c.state).1 }) ∨
    (i ≠ tid ∧ c.threads[i]? = some t') := by
  have hlt : tid < c.threads.length := (List.getElem?_eq_some_iff.mp ht).1
  simp only [advance] at h
  by_cases hi : i = tid
  · subst hi
    rw [List.getElem?_set_self hlt] at h
    exact .inl ⟨rfl, (Option.some.inj h).symm⟩
  · rw [List.getElem?_set_ne (Ne.symm hi)] at h
    exact .inr ⟨hi, h⟩

theorem start_threads {i : Nat} {t : Thread Op Reply ε α S Call} {call : Call}
    (h : (sys.start c call).threads[i]? = some t) :
    c.threads[i]? = some t ∨ (i = c.threads.length ∧ t = ⟨call, c.state, [], sys.body call⟩) := by
  simp only [start] at h
  by_cases hi : i < c.threads.length
  · rw [List.getElem?_append_left hi] at h
    exact .inl h
  · rw [List.getElem?_append_right (by omega)] at h
    obtain ⟨hk, rfl⟩ := List.getElem?_eq_some_iff.mp h
    simp only [List.length_singleton] at hk
    exact .inr ⟨by omega, by simp⟩

/-! ## Restricted runs -/

section Via
variable {ok ok' : Config Op Reply ε α S Call → Move Call Tick → Prop}

theorem ReachesVia.reaches (h : sys.ReachesVia ok c c') : sys.Reaches c c' := by
  induction h with
  | refl => exact .refl
  | step _ m _ ih => exact ih.step m

theorem ReachesVia.mono (hok : ∀ c m, ok c m → ok' c m) (h : sys.ReachesVia ok c c') :
    sys.ReachesVia ok' c c' := by
  induction h with
  | refl => exact .refl
  | step _ m hm ih => exact ih.step m (hok _ m hm)

theorem ReachesVia.play (h : sys.ReachesVia ok c c') {schedule : List (Move Call Tick)}
    (hs : sys.Allows ok c' schedule) : sys.ReachesVia ok c (sys.play c' schedule) := by
  induction schedule generalizing c' with
  | nil => exact h
  | cons m rest ih => exact ih (h.step m hs.1) hs.2

/-- **Induction over restricted runs.** -/
theorem ReachesVia.induct {P : Config Op Reply ε α S Call → Prop} (h0 : P c)
    (start : ∀ c1 call, sys.ReachesVia ok c c1 → P c1 → P (sys.start c1 call))
    (advance : ∀ c1 tid t op next, sys.ReachesVia ok c c1 → ok c1 (.act tid) → P c1 →
      c1.threads[tid]? = some t → t.rest = .call op next → P (sys.advance c1 tid t op next))
    (tick : ∀ c1 t, sys.ReachesVia ok c c1 → ok c1 (.tick t) → P c1 →
      P { c1 with state := sys.tick t c1.state })
    (h : sys.ReachesVia ok c c') : P c' := by
  induction h with
  | refl => exact h0
  | @step c1 h1 m hm ih =>
    cases m with
    | spawn call => exact start c1 call h1 ih
    | tick t => exact tick c1 t h1 hm ih
    | act tid =>
      cases ht : c1.threads[tid]? with
      | none =>
        simp only [System.step, ht]
        exact ih
      | some t =>
        cases hr : t.rest with
        | done value =>
          simp only [System.step, ht, hr]
          exact ih
        | raise error =>
          simp only [System.step, ht, hr]
          exact ih
        | call op next =>
          rw [step_act ht hr]
          exact advance c1 tid t op next h1 hm ih ht hr

end Via

/-! ## Callers over a run -/

theorem extends_refl (t : Thread Op Reply ε α S Call) : t.Extends t :=
  ⟨rfl, rfl, List.prefix_rfl, fun _ _ => rfl⟩

theorem extends_trans {t t' t'' : Thread Op Reply ε α S Call} (h : t.Extends t')
    (h' : t'.Extends t'') : t.Extends t'' := by
  refine ⟨h'.call.trans h.call, h'.born.trans h.born, h.log.trans h'.log, fun o ho => ?_⟩
  have he := h.ended o ho
  subst he
  exact h'.ended o ho

theorem start_extends (sys : System Op Reply ε α S Call Tick) (call : Call) {tid : Nat}
    {t : Thread Op Reply ε α S Call} (ht : c.threads[tid]? = some t) :
    (sys.start c call).threads[tid]? = some t := by
  rw [start, List.getElem?_append_left (List.getElem?_eq_some_iff.mp ht).1]
  exact ht

/-- The caller that has moved. -/
theorem advance_self (sys : System Op Reply ε α S Call Tick) {tid : Nat}
    {t : Thread Op Reply ε α S Call} (op : Op) (next : Reply op → Program Op Reply ε α)
    (ht : c.threads[tid]? = some t) :
    (sys.advance c tid t op next).threads[tid]? = some { t with
      log := t.log ++ [⟨op, (sys.exec tid op c.state).1⟩]
      rest := next (sys.exec tid op c.state).1 } :=
  List.getElem?_set_self (List.getElem?_eq_some_iff.mp ht).1

theorem advance_extends (sys : System Op Reply ε α S Call Tick) {i tid : Nat}
    {t u : Thread Op Reply ε α S Call} {op : Op} {next : Reply op → Program Op Reply ε α}
    (hu : c.threads[i]? = some u) (hr : u.rest = .call op next) (ht : c.threads[tid]? = some t) :
    ∃ t', (sys.advance c i u op next).threads[tid]? = some t' ∧ t.Extends t' := by
  by_cases hi : i = tid
  · subst hi
    rw [ht] at hu
    cases hu
    refine ⟨_, sys.advance_self op next ht, rfl, rfl, List.prefix_append _ _, fun o ho => ?_⟩
    rw [hr] at ho
    cases ho
  · refine ⟨t, ?_, extends_refl t⟩
    rw [advance, List.getElem?_set_ne hi]
    exact ht

/-- A caller that is there stays there, and only goes on. -/
theorem step_extends (m : Move Call Tick) {tid : Nat} {t : Thread Op Reply ε α S Call}
    (ht : c.threads[tid]? = some t) :
    ∃ t', (sys.step c m).threads[tid]? = some t' ∧ t.Extends t' := by
  rcases sys.step_cases c m with he | ⟨call, he⟩ | ⟨i, u, op, next, hu, hr, he⟩ | ⟨_, he⟩ <;>
    rw [he]
  · exact ⟨t, ht, extends_refl t⟩
  · exact ⟨t, sys.start_extends call ht, extends_refl t⟩
  · exact sys.advance_extends hu hr ht
  · exact ⟨t, ht, extends_refl t⟩

theorem Reaches.extends (h : sys.Reaches c c') {tid : Nat} {t : Thread Op Reply ε α S Call}
    (ht : c.threads[tid]? = some t) : ∃ t', c'.threads[tid]? = some t' ∧ t.Extends t' := by
  induction h with
  | refl => exact ⟨t, ht, extends_refl t⟩
  | step _ m ih =>
    obtain ⟨t', ht', he⟩ := ih
    obtain ⟨t'', ht'', he'⟩ := step_extends m ht'
    exact ⟨t'', ht'', extends_trans he he'⟩

/-- Counting in a concatenation, one list replaced. -/
theorem countP_flatMap_set {β γ : Type} (p : γ → Bool) (f : β → List γ) :
    ∀ (l : List β) (i : Nat) {x y : β}, l[i]? = some y →
      ((l.set i x).flatMap f).countP p + (f y).countP p =
        (l.flatMap f).countP p + (f x).countP p
  | [], _, _, _, h => by simp at h
  | z :: l, 0, x, y, h => by
    cases h
    simp only [List.set_cons_zero, List.flatMap_cons, List.countP_append]
    omega
  | z :: l, i + 1, x, y, h => by
    have := countP_flatMap_set p f l i (x := x) (by simpa using h)
    simp only [List.set_cons_succ, List.flatMap_cons, List.countP_append]
    omega

theorem start_events (sys : System Op Reply ε α S Call Tick) (c : Config Op Reply ε α S Call)
    (call : Call) : (sys.start c call).events = c.events := by
  simp [Config.events, start]

/-- An operation adds its own event to those of the run. -/
theorem countP_events_advance (sys : System Op Reply ε α S Call Tick)
    (p : Event Op Reply → Bool) {tid : Nat} {t : Thread Op Reply ε α S Call} {op : Op}
    {next : Reply op → Program Op Reply ε α} (ht : c.threads[tid]? = some t) :
    (sys.advance c tid t op next).events.countP p =
      c.events.countP p + if p ⟨op, (sys.exec tid op c.state).1⟩ then 1 else 0 := by
  have hs := countP_flatMap_set p (·.log) c.threads tid
    (x := { t with
      log := t.log ++ [⟨op, (sys.exec tid op c.state).1⟩]
      rest := next (sys.exec tid op c.state).1 }) ht
  simp only [List.countP_append, List.countP_singleton] at hs
  simp only [Config.events, advance]
  omega

end System

end AgenticDelivery.Atomic
