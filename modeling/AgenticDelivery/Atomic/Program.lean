/-! # Programs of atomic operations

A caller of a shared service is a sequence of atomic operations: it calls one,
looks at the reply and chooses the next, until it returns a value or raises an
error. `Program` is the syntax of such callers, over any set of operations and
any reply types; it says nothing about what an operation does. `Program.run`
gives the meaning of one caller that runs alone. -/
namespace AgenticDelivery.Atomic

/-- A program over operations `Op`: the reply to a call decides how it goes on. -/
inductive Program (Op : Type) (Reply : Op → Type) (ε α : Type) : Type
  | done (value : α)
  | raise (error : ε)
  | call (op : Op) (next : Reply op → Program Op Reply ε α)

/-- One call a program has made, with the reply it got. -/
structure Event (Op : Type) (Reply : Op → Type) where
  op : Op
  reply : Reply op

namespace Program
variable {Op : Type} {Reply : Op → Type} {ε α β γ S : Type}

protected def bind : Program Op Reply ε α → (α → Program Op Reply ε β) → Program Op Reply ε β
  | .done value, f => f value
  | .raise error, _ => .raise error
  | .call op next, f => .call op fun reply => (next reply).bind f

instance : Monad (Program Op Reply ε) where
  pure := .done
  bind := .bind

/-- The program that makes one call and returns its reply. -/
def perform (op : Op) : Program Op Reply ε (Reply op) := .call op .done

/-- Raise the error of an operation that failed. -/
def orRaise : Except ε α → Program Op Reply ε α
  | .ok value => .done value
  | .error error => .raise error

@[simp] theorem pure_eq (value : α) : (pure value : Program Op Reply ε α) = .done value := rfl

@[simp] theorem done_bind (value : α) (f : α → Program Op Reply ε β) :
    (Program.done value >>= f) = f value := rfl

@[simp] theorem orRaise_ok (value : α) :
    (orRaise (.ok value) : Program Op Reply ε α) = .done value := rfl

@[simp] theorem bind_assoc (p : Program Op Reply ε α) (f : α → Program Op Reply ε β)
    (g : β → Program Op Reply ε γ) : (p >>= f) >>= g = p >>= fun value => f value >>= g := by
  induction p with
  | done value => rfl
  | raise error => rfl
  | call op next ih => exact congrArg (Program.call op) (funext ih)

theorem ite_bind (c : Prop) [Decidable c] (p q : Program Op Reply ε α)
    (f : α → Program Op Reply ε β) :
    ((if c then p else q) >>= f) = if c then p >>= f else q >>= f := by
  split <;> rfl

/-- What a program that has ended returned or raised. -/
def outcome : Program Op Reply ε α → Option (Except ε α)
  | .done value => some (.ok value)
  | .raise error => some (.error error)
  | .call _ _ => none

/-- The value of a program that has returned. -/
def returned : Program Op Reply ε α → Option α
  | .done value => some value
  | _ => none

theorem outcome_of_returned {p : Program Op Reply ε α} {value : α} (h : p.returned = some value) :
    p.outcome = some (.ok value) := by
  cases p <;> cases h
  rfl

/-! ## One caller alone -/

/-- Run a program to its end with nobody else in between. -/
def run (exec : (op : Op) → S → Reply op × S) : Program Op Reply ε α → S → Except ε α × S
  | .done value, s => (.ok value, s)
  | .raise error, s => (.error error, s)
  | .call op next, s => (next (exec op s).1).run exec (exec op s).2

@[simp] theorem run_done (exec : (op : Op) → S → Reply op × S) (value : α) (s : S) :
    (done value : Program Op Reply ε α).run exec s = (.ok value, s) := rfl

@[simp] theorem run_raise (exec : (op : Op) → S → Reply op × S) (error : ε) (s : S) :
    (raise error : Program Op Reply ε α).run exec s = (.error error, s) := rfl

@[simp] theorem run_call (exec : (op : Op) → S → Reply op × S) (op : Op)
    (next : Reply op → Program Op Reply ε α) (s : S) :
    (call op next).run exec s = (next (exec op s).1).run exec (exec op s).2 := rfl

/-- An operation whose reply `g` turns into a value, in front of a program. -/
theorem run_perform {exec : (op : Op) → S → Reply op × S} {op : Op} {r : Reply op} {s s' : S}
    {g : Reply op → Program Op Reply ε α} {value : α} (he : exec op s = (r, s'))
    (hg : g r = .done value) (f : α → Program Op Reply ε β) :
    (perform op >>= g >>= f).run exec s = (f value).run exec s' := by
  change (g (exec op s).1 >>= f).run exec (exec op s).2 = _
  rw [he, hg, done_bind]

end Program

end AgenticDelivery.Atomic
