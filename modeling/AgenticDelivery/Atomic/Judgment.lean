import Mathlib.Data.List.Basic
import AgenticDelivery.Atomic.Pool

/-! # Programs judged by their text

What a call owes can be checked without any state: along each path of its
program, against every reply that its operations may get. `Keeps` is that check,
by recursion on the program. `Reaches.judged` says that in a run whose replies
are such, every caller is on a path that was checked, and `Reaches.traced` that
what the events of a log have shown is still true. The log of a caller that has
ended leads along a whole path (`Reaches.yields`). A journal that operations
append to is the shuffled union of the logs (`Reaches.journal`). -/
namespace AgenticDelivery.Atomic

variable {Op : Type} {Reply : Op → Type} {ε α β S Call Tick : Type}

/-- The replies an operation may get, what it owes when it is called, and what an
end owes, given the log of the call so far. -/
structure Rules (Op : Type) (Reply : Op → Type) (ε α : Type) where
  may : (op : Op) → Reply op → Prop
  fits : List (Event Op Reply) → Op → Prop
  ends : List (Event Op Reply) → Except ε α → Prop

/-- Each path of the program keeps the rules, from the log on. -/
def Program.Keeps (rules : Rules Op Reply ε α) :
    Program Op Reply ε α → List (Event Op Reply) → Prop
  | .done value, log => rules.ends log (.ok value)
  | .raise error, log => rules.ends log (.error error)
  | .call op next, log => rules.fits log op ∧
      ∀ r, rules.may op r → (next r).Keeps rules (log ++ [⟨op, r⟩])

/-- A log whose operations fitted, and got replies that they may get. -/
inductive Judged (rules : Rules Op Reply ε α) : List (Event Op Reply) → Prop
  | nil : Judged rules []
  | snoc {log op r} (h : Judged rules log) (fits : rules.fits log op) (may : rules.may op r) :
      Judged rules (log ++ [⟨op, r⟩])

section Paths
variable {rules : Rules Op Reply ε α} {log log' : List (Event Op Reply)}

/-- An operation, in front of a program. -/
theorem Program.Keeps.perform {op : Op} {f : Reply op → Program Op Reply ε α}
    (hf : rules.fits log op) (h : ∀ r, rules.may op r → (f r).Keeps rules (log ++ [⟨op, r⟩])) :
    (Program.perform op >>= f).Keeps rules log := ⟨hf, h⟩

/-- An operation that may fail, in front of a program. -/
theorem Program.Keeps.performOrRaise {op : Op} {g : Reply op → Except ε β}
    {f : β → Program Op Reply ε α} (hf : rules.fits log op)
    (herr : ∀ r e, rules.may op r → g r = .error e → rules.ends (log ++ [⟨op, r⟩]) (.error e))
    (hok : ∀ r value, rules.may op r → g r = .ok value →
      (f value).Keeps rules (log ++ [⟨op, r⟩])) :
    ((Program.perform op >>= fun r => orRaise (g r)) >>= f).Keeps rules log := by
  refine ⟨hf, fun r hr => ?_⟩
  change (orRaise (g r) >>= f).Keeps rules (log ++ [⟨op, r⟩])
  cases hg : g r with
  | error e => exact herr r e hr hg
  | ok value => exact hok r value hr hg

/-- The operations of a judged log fitted what came before them. -/
theorem Judged.fits (h : Judged rules log) {before after : List (Event Op Reply)}
    {e : Event Op Reply} (he : log = before ++ e :: after) :
    rules.fits before e.op ∧ rules.may e.op e.reply := by
  induction h generalizing after with
  | nil => simp at he
  | @snoc front op r _ hf hm ih =>
    rcases List.eq_nil_or_concat' after with rfl | ⟨mid, x, rfl⟩
    · obtain ⟨rfl, hx⟩ := List.append_inj' he rfl
      cases hx
      exact ⟨hf, hm⟩
    · rw [← List.cons_append, ← List.append_assoc] at he
      exact ih (List.append_inj' he rfl).1

end Paths

/-! ## Whole logs -/

/-- The log leads the program from its start to the outcome `o`. -/
def Program.Yields : Program Op Reply ε α → List (Event Op Reply) → Except ε α → Prop
  | .done value, log, o => log = [] ∧ o = .ok value
  | .raise error, log, o => log = [] ∧ o = .error error
  | .call op next, log, o => ∃ r rest, log = ⟨op, r⟩ :: rest ∧ (next r).Yields rest o

/-- Behind `before`, the rest of the log leads the program to the outcome `o`. -/
def Program.Follows (p : Program Op Reply ε α) (before log : List (Event Op Reply))
    (o : Except ε α) : Prop :=
  ∃ rest, log = before ++ rest ∧ p.Yields rest o

namespace Program.Follows
variable {before log : List (Event Op Reply)} {o : Except ε α}

theorem start {p : Program Op Reply ε α} (h : p.Yields log o) : p.Follows [] log o :=
  ⟨log, rfl, h⟩

theorem done {value : α} (h : (Program.done value).Follows before log o) :
    log = before ∧ o = .ok value := by
  obtain ⟨_, rfl, rfl, rfl⟩ := h
  exact ⟨List.append_nil _, rfl⟩

theorem raise {error : ε} (h : (Program.raise error).Follows before log o) :
    log = before ∧ o = .error error := by
  obtain ⟨_, rfl, rfl, rfl⟩ := h
  exact ⟨List.append_nil _, rfl⟩

/-- The operation in front of a program comes next. -/
theorem perform {op : Op} {f : Reply op → Program Op Reply ε α}
    (h : (Program.perform op >>= f).Follows before log o) :
    ∃ r, before ++ [⟨op, r⟩] <+: log ∧ (f r).Follows (before ++ [⟨op, r⟩]) log o := by
  obtain ⟨_, rfl, r, rest, rfl, h⟩ := h
  have hl : before ++ ⟨op, r⟩ :: rest = before ++ [⟨op, r⟩] ++ rest := by
    rw [List.append_assoc, List.singleton_append]
  exact ⟨r, ⟨rest, hl.symm⟩, rest, hl, h⟩

/-- An operation that may fail comes next: it ends the log, or the program goes on. -/
theorem performOrRaise {op : Op} {g : Reply op → Except ε β} {f : β → Program Op Reply ε α}
    (h : ((Program.perform op >>= fun r => orRaise (g r)) >>= f).Follows before log o) :
    ∃ r, before ++ [⟨op, r⟩] <+: log ∧
      ((∃ e, g r = .error e ∧ log = before ++ [⟨op, r⟩] ∧ o = .error e) ∨
        ∃ value, g r = .ok value ∧ (f value).Follows (before ++ [⟨op, r⟩]) log o) := by
  rw [bind_assoc] at h
  obtain ⟨r, hp, h⟩ := h.perform
  refine ⟨r, hp, ?_⟩
  cases hg : g r with
  | error e =>
    rw [hg] at h
    obtain ⟨hl, ho⟩ := raise h
    exact .inl ⟨e, rfl, hl, ho⟩
  | ok value =>
    rw [hg] at h
    exact .inr ⟨value, rfl, h⟩

end Program.Follows

/-! ## Whole pools -/

namespace System
variable {sys : System Op Reply ε α S Call Tick} {c c' : Config Op Reply ε α S Call}

/-- **Every caller is on a path that was checked**: of every kind of call, whatever
the others do. -/
theorem Reaches.judged {rules : Call → Rules Op Reply ε α} (hc : c.threads = [])
    (body : ∀ call, (sys.body call).Keeps (rules call) [])
    (may : ∀ c₁ tid (t : Thread Op Reply ε α S Call) op next, sys.Reaches c c₁ →
      c₁.threads[tid]? = some t → t.rest = .call op next →
      (rules t.call).may op (sys.exec tid op c₁.state).1)
    (h : sys.Reaches c c') {tid : Nat} {t : Thread Op Reply ε α S Call}
    (ht : c'.threads[tid]? = some t) :
    Judged (rules t.call) t.log ∧ t.rest.Keeps (rules t.call) t.log := by
  induction h generalizing tid t with
  | refl => simp [hc] at ht
  | @step c₁ h₁ m ih =>
    rcases sys.step_cases c₁ m with he | ⟨call, he⟩ | ⟨i, u, op, next, hu, hr, he⟩ | ⟨_, he⟩ <;>
      rw [he] at ht
    · exact ih ht
    · rcases start_threads ht with ht | ⟨-, rfl⟩
      · exact ih ht
      · exact ⟨.nil, body call⟩
    · rcases advance_threads hu ht with ⟨-, rfl⟩ | ⟨-, ht⟩
      · obtain ⟨hj, hk⟩ := ih hu
        rw [hr] at hk
        have hm := may c₁ i u op next h₁ hu hr
        exact ⟨hj.snoc hk.1 hm, hk.2 _ hm⟩
      · exact ih ht
    · exact ih ht

/-- A caller that has ended owes what its rules say of the end. -/
theorem ends_of_keeps {rules : Rules Op Reply ε α} {t : Thread Op Reply ε α S Call}
    {o : Except ε α} (h : t.rest.Keeps rules t.log) (ho : t.rest.outcome = some o) :
    rules.ends t.log o := by
  cases hr : t.rest with
  | done value =>
    rw [hr] at h ho
    cases ho
    exact h
  | raise error =>
    rw [hr] at h ho
    cases ho
    exact h
  | call op next =>
    rw [hr] at ho
    cases ho

/-- **What an event has shown stays true**, given what its caller had done before it and
the state the call started in, when it is true after the operation and no move makes it
false. -/
theorem Reaches.traced
    (shows : S → List (Event Op Reply) → Event Op Reply → Config Op Reply ε α S Call → Prop)
    (hc : c.threads = [])
    (now : ∀ c₁ tid (t : Thread Op Reply ε α S Call) op next, sys.Reaches c c₁ →
      c₁.threads[tid]? = some t → t.rest = .call op next →
      shows t.born t.log ⟨op, (sys.exec tid op c₁.state).1⟩ (sys.advance c₁ tid t op next))
    (stable : ∀ c₁ m born before e, sys.Reaches c c₁ → shows born before e c₁ →
      shows born before e (sys.step c₁ m))
    (h : sys.Reaches c c') {tid : Nat} {t : Thread Op Reply ε α S Call}
    (ht : c'.threads[tid]? = some t) {before : List (Event Op Reply)} {e : Event Op Reply}
    (he : before ++ [e] <+: t.log) : shows t.born before e c' := by
  induction h generalizing tid t with
  | refl => simp [hc] at ht
  | @step c₁ h₁ m ih =>
    have old : ∀ {i : Nat} {u : Thread Op Reply ε α S Call}, c₁.threads[i]? = some u →
        before ++ [e] <+: u.log → shows u.born before e (sys.step c₁ m) :=
      fun hu hp => stable c₁ m _ before e h₁ (ih hu hp)
    rcases sys.step_cases c₁ m with hs | ⟨call, hs⟩ | ⟨i, u, op, next, hu, hr, hs⟩ | ⟨_, hs⟩ <;>
      rw [hs] at ht
    · exact old ht he
    · rcases start_threads ht with ht | ⟨-, rfl⟩
      · exact old ht he
      · exact absurd (List.prefix_nil.mp he) (List.append_ne_nil_of_right_ne_nil _ nofun)
    · rcases advance_threads hu ht with ⟨-, rfl⟩ | ⟨-, ht⟩
      · rcases List.prefix_concat_iff.mp he with he | he
        · obtain ⟨rfl, hx⟩ := List.append_inj' he rfl
          cases hx
          rw [hs]
          exact now c₁ i u op next h₁ hu hr
        · have hold := old hu he
          exact hold
      · exact old ht he
    · exact old ht he

/-- What an event has shown of the state stays true. -/
theorem Reaches.logged (shows : S → Event Op Reply → S → Prop) (hc : c.threads = [])
    (now : ∀ c₁ tid (t : Thread Op Reply ε α S Call) op next, sys.Reaches c c₁ →
      c₁.threads[tid]? = some t → t.rest = .call op next →
      shows t.born ⟨op, (sys.exec tid op c₁.state).1⟩ (sys.exec tid op c₁.state).2)
    (stable : ∀ c₁ m born e, sys.Reaches c c₁ → shows born e c₁.state →
      shows born e (sys.step c₁ m).state)
    (h : sys.Reaches c c') {tid : Nat} {t : Thread Op Reply ε α S Call}
    (ht : c'.threads[tid]? = some t) {e : Event Op Reply} (he : e ∈ t.log) :
    shows t.born e c'.state := by
  obtain ⟨before, after, hlog⟩ := List.append_of_mem he
  have hsofar : before ++ [e] <+: t.log :=
    ⟨after, by rw [hlog, List.append_assoc, List.singleton_append]⟩
  exact h.traced (fun born _ e c => shows born e c.state) hc now
    (fun c₁ m born _ e => stable c₁ m born e) ht hsofar

/-- A whole run of what is left of a caller makes its log a whole run of its call. -/
theorem Reaches.yields_append (hc : c.threads = []) (h : sys.Reaches c c') {tid : Nat}
    {t : Thread Op Reply ε α S Call} (ht : c'.threads[tid]? = some t)
    {rest : List (Event Op Reply)} {o : Except ε α} (hy : t.rest.Yields rest o) :
    (sys.body t.call).Yields (t.log ++ rest) o := by
  induction h generalizing tid t rest with
  | refl => simp [hc] at ht
  | @step c₁ h₁ m ih =>
    rcases sys.step_cases c₁ m with he | ⟨call, he⟩ | ⟨i, u, op, next, hu, hr, he⟩ | ⟨_, he⟩ <;>
      rw [he] at ht
    · exact ih ht hy
    · rcases start_threads ht with ht | ⟨-, rfl⟩
      · exact ih ht hy
      · exact hy
    · rcases advance_threads hu ht with ⟨-, rfl⟩ | ⟨-, ht⟩
      · have hall := ih hu (show u.rest.Yields (⟨op, (sys.exec i op c₁.state).1⟩ :: rest) o by
          rw [hr]
          exact ⟨_, _, rfl, hy⟩)
        rw [← List.singleton_append, ← List.append_assoc] at hall
        exact hall
      · exact ih ht hy
    · exact ih ht hy

/-- **The log of a caller that has ended is a whole run of its call.** -/
theorem Reaches.yields (hc : c.threads = []) (h : sys.Reaches c c') {tid : Nat}
    {t : Thread Op Reply ε α S Call} (ht : c'.threads[tid]? = some t) {o : Except ε α}
    (ho : t.rest.outcome = some o) : (sys.body t.call).Yields t.log o := by
  have hy : t.rest.Yields [] o := by
    cases hr : t.rest with
    | done value =>
      rw [hr] at ho
      cases ho
      exact ⟨rfl, rfl⟩
    | raise error =>
      rw [hr] at ho
      cases ho
      exact ⟨rfl, rfl⟩
    | call op next =>
      rw [hr] at ho
      cases ho
  have hall := h.yields_append hc ht hy
  rwa [List.append_nil] at hall

/-! ## Journals -/

section Journal
variable {ι : Type}

/-- One element replaced: what is mapped from the list, up to order. -/
theorem perm_flatMap_set {γ δ : Type} (f : γ → List δ) :
    ∀ (l : List γ) (i : Nat) {x y : γ} {new : List δ}, l[i]? = some y → f x = f y ++ new →
      ((l.set i x).flatMap f).Perm (l.flatMap f ++ new)
  | [], _, _, _, _, h, _ => by simp at h
  | z :: l, 0, x, y, new, h, hx => by
    cases h
    simp only [List.set_cons_zero, List.flatMap_cons, hx, List.append_assoc]
    exact List.Perm.append_left _ List.perm_append_comm
  | z :: l, i + 1, x, y, new, h, hx => by
    simp only [List.set_cons_succ, List.flatMap_cons, List.append_assoc]
    exact (perm_flatMap_set f l i (by simpa using h) hx).append_left _

/-- **A journal holds what the logs say, and nothing else**: when each operation
appends the entries of its own event, and nothing else touches the journal. -/
theorem Reaches.journal (entries : S → List ι) (entryOf : Event Op Reply → Option ι)
    (hc : c.threads = []) (h0 : entries c.state = [])
    (exec : ∀ tid op s, entries (sys.exec tid op s).2 =
      entries s ++ (entryOf ⟨op, (sys.exec tid op s).1⟩).toList)
    (tick : ∀ t s, entries (sys.tick t s) = entries s) (h : sys.Reaches c c') :
    (entries c'.state).Perm (c'.threads.flatMap fun t => t.log.filterMap entryOf) := by
  induction h with
  | refl => simp [hc, h0]
  | @step c₁ h₁ m ih =>
    rcases sys.step_cases c₁ m with he | ⟨call, he⟩ | ⟨i, u, op, next, hu, hr, he⟩ | ⟨t, he⟩ <;>
      rw [he]
    · exact ih
    · simpa [start] using ih
    · refine ((exec i op c₁.state).symm ▸ ih.append_right _ : _).trans ?_
      refine (perm_flatMap_set (fun t => t.log.filterMap entryOf) c₁.threads i hu ?_).symm
      simp only [List.filterMap_append, List.append_cancel_left_eq, List.filterMap_cons,
        List.filterMap_nil]
      cases entryOf ⟨op, (sys.exec i op c₁.state).1⟩ <;> rfl
    · simpa [tick] using ih

end Journal

/-! ## The order of the events -/

/-- An event after an operation: one from before, or the operation's own. -/
theorem mem_events_advance {tid : Nat} {t : Thread Op Reply ε α S Call} {op : Op}
    {next : Reply op → Program Op Reply ε α} (ht : c.threads[tid]? = some t) {e : Event Op Reply} :
    e ∈ (sys.advance c tid t op next).events ↔
      e ∈ c.events ∨ e = ⟨op, (sys.exec tid op c.state).1⟩ := by
  rw [Config.events, advance, (perm_flatMap_set (·.log) c.threads tid ht rfl).mem_iff,
    List.mem_append, List.mem_singleton]
  rfl

/-- **The events of a run are comparable** when each is above all the earlier ones. -/
theorem Reaches.comparable {R : Event Op Reply → Event Op Reply → Prop} (refl : ∀ e, R e e)
    (hc : c.threads = [])
    (above : ∀ c₁ tid (t : Thread Op Reply ε α S Call) op next, sys.Reaches c c₁ →
      c₁.threads[tid]? = some t → t.rest = .call op next →
      ∀ e ∈ c₁.events, R e ⟨op, (sys.exec tid op c₁.state).1⟩)
    (h : sys.Reaches c c') : ∀ e ∈ c'.events, ∀ e' ∈ c'.events, R e e' ∨ R e' e := by
  induction h with
  | refl => simp [Config.events, hc]
  | @step c₁ h₁ m ih =>
    rcases sys.step_cases c₁ m with hs | ⟨call, hs⟩ | ⟨i, u, op, next, hu, hr, hs⟩ | ⟨_, hs⟩ <;>
      rw [hs]
    · exact ih
    · rw [start_events]
      exact ih
    · have above := above c₁ i u op next h₁ hu hr
      intro e he e' he'
      rcases (mem_events_advance hu).mp he with he | rfl
      · rcases (mem_events_advance hu).mp he' with he' | rfl
        · exact ih e he e' he'
        · exact .inl (above e he)
      · rcases (mem_events_advance hu).mp he' with he' | rfl
        · exact .inr (above e' he')
        · exact .inl (refl _)
    · exact ih

/-- A call that starts later starts in a state on the way. -/
theorem Reaches.born_after (h : sys.Reaches c c') {tid : Nat} {t : Thread Op Reply ε α S Call}
    (ht : c'.threads[tid]? = some t) (hlate : c.threads.length ≤ tid) :
    ∃ c₁, sys.Reaches c c₁ ∧ t.born = c₁.state := by
  induction h generalizing t with
  | refl => simp [List.getElem?_eq_none hlate] at ht
  | @step c₁ h₁ m ih =>
    rcases sys.step_cases c₁ m with hs | ⟨call, hs⟩ | ⟨i, u, op, next, hu, hr, hs⟩ | ⟨_, hs⟩ <;>
      rw [hs] at ht
    · exact ih ht
    · rcases start_threads ht with ht | ⟨-, rfl⟩
      · exact ih ht
      · exact ⟨c₁, h₁, rfl⟩
    · rcases advance_threads hu ht with ⟨rfl, rfl⟩ | ⟨-, ht⟩
      · have hborn := ih hu
        exact hborn
      · exact ih ht
    · exact ih ht

end System

end AgenticDelivery.Atomic
