import AgenticDelivery.Api.Exits

/-! # Sequential runs

Runs whose calls do not overlap: every call is made alone, in any order, by any
client, at any times. They are runs of the pool, so what holds in every run
holds in them. -/
namespace AgenticDelivery.Api
open AgenticDelivery.Atomic AgenticDelivery.Data AgenticDelivery.Governance AgenticDelivery.Runtime

variable {env : Environment} {n n' : Nat} {s s' : State} {call : Call}
  {clock : Nat → Datetime × Datetime}

/-- The answer to a call that is made alone from `s`, when `n` calls were made
before, and the state afterwards. -/
abbrev answer (env : Environment) (n : Nat) (s : State) (call : Call)
    (clock : Nat → Datetime × Datetime) : Except Failure Workflow × State :=
  (system env).alone n call s clock

/-- `s` is the state after `n` calls, made one after another. -/
def Sequential (env : Environment) (n : Nat) (s : State) : Prop :=
  ∃ now utc, (system env).Serial 0 { now, utc } n s

theorem Sequential.serial (h : Sequential env n s) (hs : (system env).Serial n s n' s') :
    Sequential env n' s' := by
  obtain ⟨now, utc, h⟩ := h
  exact ⟨now, utc, h.trans hs⟩

theorem Sequential.after (h : Sequential env n s) (call : Call)
    (clock : Nat → Datetime × Datetime) : Sequential env (n + 1) (answer env n s call clock).2 :=
  h.serial (.call .refl call clock)

/-- A sequential run is a run of the pool. -/
theorem Sequential.reachable (h : Sequential env n s) :
    ∃ c, Reachable env c ∧ c.state = s ∧ c.threads.length = n := by
  obtain ⟨now, utc, h⟩ := h
  obtain ⟨c, hreach, hs, hn⟩ := System.Serial.reaches (c := initial now utc) h
  exact ⟨c, ⟨now, utc, hreach⟩, hs, hn⟩

theorem Sequential.consistent (hf : Function.Injective env.idFactory) (h : Sequential env n s) :
    Consistent env s := by
  obtain ⟨c, hc, rfl, -⟩ := h.reachable
  exact hc.consistent hf

/-- What the calls of a sequential run leave of the stores. -/
theorem Sequential.evolve (hf : Function.Injective env.idFactory) (h : Sequential env n s)
    (hs : (system env).Serial n s n' s') : Evolve env s s' := by
  obtain ⟨c, hc, rfl, rfl⟩ := h.reachable
  obtain ⟨c', hreach, rfl, -⟩ := hs.reaches
  exact hc.evolve hf hreach

/-- A call of a sequential run ends in one of its ways. -/
theorem Sequential.ends (hf : Function.Injective env.idFactory) (h : Sequential env n s)
    (call : Call) (clock : Nat → Datetime × Datetime) :
    Ends env clock s call (answer env n s call clock) :=
  (h.consistent hf).ends call

/-! ## Runs by their calls -/

/-- The state after some calls, each at its own time. -/
def serve (env : Environment) (n : Nat) (s : State) : List (Call × (Datetime × Datetime)) → State
  | [] => s
  | (call, t) :: rest => serve env (n + 1) (answer env n s call fun _ => t).2 rest

theorem serial_serve (env : Environment) :
    ∀ (calls : List (Call × (Datetime × Datetime))) (n : Nat) (s : State),
      (system env).Serial n s (n + calls.length) (serve env n s calls)
  | [], _, _ => .refl
  | (call, t) :: rest, n, s => by
    have h := System.Serial.refl.call call (fun _ => t) |>.trans
      (serial_serve env rest (n + 1) (answer env n s call fun _ => t).2)
    rw [List.length_cons, Nat.add_comm rest.length, ← Nat.add_assoc]
    exact h

theorem sequential_serve (env : Environment) (now utc : Datetime)
    (calls : List (Call × (Datetime × Datetime))) :
    Sequential env (0 + calls.length) (serve env 0 { now, utc } calls) :=
  ⟨now, utc, serial_serve env calls 0 _⟩

/-- The request of the examples, planned, approved and executed. -/
def sampleCalls : List (Call × (Datetime × Datetime)) :=
  [(.create sampleRequest, 1, 1), (.plan localRequester "w" "c-2", 2, 2),
    (.decideApproval localReviewer "w" .approved "reviewed" "key-2" "c-3", 3, 3),
    (.processNextTask localOperator "c-4", 4, 4)]

end AgenticDelivery.Api
