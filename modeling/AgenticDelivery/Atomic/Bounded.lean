import AgenticDelivery.Atomic.Layer

/-! # Bounded programs

A program makes at most so many calls, whatever they are answered. Where the programs of a
pool are bounded nobody waits for anybody: a caller that is given as many turns as its bound
has ended, whatever the other callers do and wherever they stop. -/
namespace AgenticDelivery.Atomic

variable {Op : Type} {Reply : Op → Type} {ε α β S Call Tick : Type} {m n : Nat}

namespace Program
variable {Op₂ : Type} {Reply₂ : Op₂ → Type} {ε₂ : Type}

/-- The program makes at most `n` calls. -/
def Within : Program Op Reply ε α → Nat → Prop
  | .done _, _ => True
  | .raise _, _ => True
  | .call _ _, 0 => False
  | .call _ next, n + 1 => ∀ reply, (next reply).Within n

@[simp] theorem within_done (value : α) : (done value : Program Op Reply ε α).Within n := trivial

@[simp] theorem within_raise (error : ε) : (raise error : Program Op Reply ε α).Within n := trivial

@[simp] theorem within_orRaise (x : Except ε α) :
    (orRaise x : Program Op Reply ε α).Within n := by
  cases x <;> trivial

/-- A program that has ended without an error has returned. -/
theorem returned_of_outcome {p : Program Op Reply ε α} {value : α}
    (h : p.outcome = some (.ok value)) : p.returned = some value := by
  cases p <;> cases h
  rfl

namespace Within

theorem mono {p : Program Op Reply ε α} (h : p.Within m) (hmn : m ≤ n) : p.Within n := by
  induction p generalizing m n with
  | done | raise => trivial
  | call op next ih =>
    cases m with
    | zero => exact h.elim
    | succ m =>
      cases n with
      | zero => exact absurd hmn (Nat.not_succ_le_zero m)
      | succ n => exact fun reply => ih reply (h reply) (Nat.le_of_succ_le_succ hmn)

theorem bind {p : Program Op Reply ε α} {f : α → Program Op Reply ε β} (hp : p.Within m)
    (hf : ∀ value, (f value).Within n) : (p >>= f).Within (n + m) := by
  induction p generalizing m with
  | done value => exact (hf value).mono (Nat.le_add_right n m)
  | raise error => trivial
  | call op next ih =>
    cases m with
    | zero => exact hp.elim
    | succ m => exact fun reply => ih reply (hp reply)

/-- A value or an error in front. -/
theorem orRaise {x : Except ε α} {f : α → Program Op Reply ε β} (hf : ∀ value, (f value).Within n) :
    (Program.orRaise x >>= f).Within n := by
  cases x with
  | ok value => exact hf value
  | error e => trivial

theorem ite {c : Prop} [Decidable c] {p q : Program Op Reply ε α} (hp : p.Within n)
    (hq : q.Within n) : (if c then p else q).Within n := by
  split
  · exact hp
  · exact hq

theorem inner {e : Embedding Op Reply Op₂ Reply₂} {lift : ε → ε₂} {p : Program Op Reply ε α}
    (h : p.Within n) : (p.inner e lift).Within n := by
  induction p generalizing n with
  | done | raise => trivial
  | call op next ih =>
    cases n with
    | zero => exact h.elim
    | succ n => exact fun reply => ih _ (h _)

theorem handle {p : Program Op Reply ε α} {handler : ε → Program Op Reply ε₂ α} (h : p.Within n)
    (hh : ∀ error, (handler error).Within m) : (p.handle handler).Within (m + n) := by
  induction p generalizing n with
  | done => trivial
  | raise error => exact (hh error).mono (Nat.le_add_right m n)
  | call op next ih =>
    cases n with
    | zero => exact h.elim
    | succ n => exact fun reply => ih reply (h reply)

/-- Without calls left a program has ended. -/
theorem ended {p : Program Op Reply ε α} (h : p.Within 0) : ∃ o, p.outcome = some o := by
  cases p with
  | done value => exact ⟨.ok value, rfl⟩
  | raise error => exact ⟨.error error, rfl⟩
  | call op next => exact h.elim

end Within

end Program

/-! ## Turns -/

/-- Caller `tid` is given a turn. -/
def Move.turnOf (tid : Nat) : Move Call Tick → Bool
  | .act i => i = tid
  | _ => false

namespace System
variable {sys : System Op Reply ε α S Call Tick} {c c' : Config Op Reply ε α S Call}

/-- What a caller has done and what it has left to do are within its bound. -/
theorem Reaches.within (bound : Call → Nat) (hc : c.threads = [])
    (body : ∀ call, (sys.body call).Within (bound call)) (h : sys.Reaches c c') {tid : Nat}
    {t : Thread Op Reply ε α S Call} (ht : c'.threads[tid]? = some t) :
    ∃ left, t.log.length + left = bound t.call ∧ t.rest.Within left := by
  induction h generalizing tid t with
  | refl => simp [hc] at ht
  | @step c₁ h₁ m ih =>
    rcases sys.step_cases c₁ m with hs | ⟨call, hs⟩ | ⟨i, u, op, next, hu, hr, hs⟩ | ⟨_, hs⟩ <;>
      rw [hs] at ht
    · exact ih ht
    · rcases start_threads ht with ht | ⟨-, rfl⟩
      · exact ih ht
      · exact ⟨bound call, Nat.zero_add _, body call⟩
    · rcases advance_threads hu ht with ⟨-, rfl⟩ | ⟨-, ht⟩
      · obtain ⟨left, hsum, hw⟩ := ih hu
        rw [hr] at hw
        cases left with
        | zero => exact hw.elim
        | succ left =>
          refine ⟨left, ?_, hw _⟩
          rw [← hsum, List.length_append, List.length_singleton]
          omega
      · exact ih ht
    · exact ih ht

/-- A turn of another, or a move of no caller, leaves a caller as it is. -/
theorem step_other {tid : Nat} {t : Thread Op Reply ε α S Call} {m : Move Call Tick}
    (hm : m.turnOf tid = false) (ht : c.threads[tid]? = some t) :
    (sys.step c m).threads[tid]? = some t := by
  cases m with
  | spawn call =>
    have hlt := (List.getElem?_eq_some_iff.mp ht).1
    exact (List.getElem?_append_left hlt).trans ht
  | act i =>
    have hne : i ≠ tid := of_decide_eq_false hm
    simp only [step]
    split
    · exact ht
    · split
      · rw [advance, List.getElem?_set_ne hne]
        exact ht
      · exact ht
  | tick t => exact ht

/-- A caller that has ended stays as it is. -/
theorem play_done {tid : Nat} {t : Thread Op Reply ε α S Call} {o : Except ε α}
    (schedule : List (Move Call Tick)) (ht : c.threads[tid]? = some t)
    (ho : t.rest.outcome = some o) : (sys.play c schedule).threads[tid]? = some t := by
  obtain ⟨t', ht', hext⟩ := (reaches_play sys c schedule).extends ht
  rwa [hext.ended o ho] at ht'

/-- **Nobody waits**: a caller that has been given its turns has ended. -/
theorem play_ended {tid : Nat} {t : Thread Op Reply ε α S Call} {schedule : List (Move Call Tick)}
    (ht : c.threads[tid]? = some t) (hn : t.rest.Within n)
    (hturns : n ≤ schedule.countP (Move.turnOf tid)) :
    ∃ t' o, (sys.play c schedule).threads[tid]? = some t' ∧ t'.rest.outcome = some o := by
  induction schedule generalizing c t n with
  | nil =>
    obtain ⟨o, ho⟩ := (hn.mono hturns : t.rest.Within 0).ended
    exact ⟨t, o, ht, ho⟩
  | cons m schedule ih =>
    cases hm : m.turnOf tid with
    | false =>
      rw [List.countP_cons_of_neg (by rw [hm]; exact Bool.false_ne_true)] at hturns
      exact ih (step_other hm ht) hn hturns
    | true =>
      rw [List.countP_cons_of_pos hm] at hturns
      have hw := hn.mono hturns
      cases m with
      | spawn | tick => cases hm
      | act i =>
        obtain rfl : i = tid := of_decide_eq_true hm
        cases hr : t.rest with
        | done value => exact ⟨t, .ok value, play_done _ ht (by rw [hr]; rfl), by rw [hr]; rfl⟩
        | raise error => exact ⟨t, .error error, play_done _ ht (by rw [hr]; rfl), by rw [hr]; rfl⟩
        | call op next =>
          rw [hr] at hw
          obtain ⟨t', o, ht', ho⟩ := ih (sys.advance_self op next ht) (hw _) (Nat.le_refl _)
          refine ⟨t', o, ?_, ho⟩
          rw [play, List.foldl_cons, step_act ht hr]
          exact ht'

end System

end AgenticDelivery.Atomic
