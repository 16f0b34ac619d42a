import AgenticDelivery.Api.Chronology

/-! # The audit sink as a log

In every run the sink only grows at its end; its events are numbered without a gap
and never twice, and they are in the order of their times when the clock never goes
back. -/
namespace AgenticDelivery.Api
open AgenticDelivery.Atomic AgenticDelivery.Data AgenticDelivery.Governance AgenticDelivery.Runtime

variable {env : Environment} {c c' : PoolConfig}

/-- The number of an event can be read back from its digits. -/
theorem pad8_injective : Function.Injective pad8 := by
  intro m n h
  have hlist := congrArg String.toList h
  simp only [pad8, String.toList_append, String.toList_ofList] at hlist
  have hnum := congrArg (fun ds => Nat.ofDigitChars 10 ds 0) hlist
  simpa [Nat.ofDigitChars_append, Nat.toString_eq_ofList_toDigits] using hnum

/-- The identifier of the `i`-th event, from 0 on. -/
def auditId (i : Nat) : String := "audit-" ++ pad8 (i + 1)

theorem auditId_injective : Function.Injective auditId := by
  intro i j h
  have hlist := congrArg String.toList h
  simp only [auditId, String.toList_append] at hlist
  have := pad8_injective (String.toList_injective (List.append_cancel_left hlist))
  omega

/-- The events are numbered from the first on, and each outcome is its decision. -/
def Numbered (events : List AuditEvent) : Prop :=
  events.map AuditEvent.eventId = (List.range events.length).map auditId ∧
    ∀ e ∈ events, e.decision = e.outcome

theorem Numbered.record {events : List AuditEvent} (h : Numbered events) (now : Datetime)
    (action outcome : String) (subject resourceId : Option String) (correlationId : String) :
    Numbered (recordAudit events now action outcome subject resourceId correlationId) := by
  refine ⟨?_, fun e he => ?_⟩
  · rw [recordAudit, List.map_append, h.1, List.length_append, List.length_singleton,
      List.range_succ, List.map_append]
    rfl
  · rcases List.mem_append.mp he with he | he
    · exact h.2 e he
    · rw [List.mem_singleton.mp he]

/-- The events are in the order of their times, none of them later than `now`. -/
def InOrder (events : List AuditEvent) (now : Datetime) : Prop :=
  events.Pairwise (fun e e' => e.occurredAt ≤ e'.occurredAt) ∧ ∀ e ∈ events, e.occurredAt ≤ now

theorem InOrder.record {events : List AuditEvent} {now : Datetime} (h : InOrder events now)
    (action outcome : String) (subject resourceId : Option String) (correlationId : String) :
    InOrder (recordAudit events now action outcome subject resourceId correlationId) now := by
  refine ⟨List.pairwise_append.mpr ⟨h.1, List.pairwise_singleton _ _, fun e he e' he' => ?_⟩,
    fun e he => ?_⟩
  · rw [List.mem_singleton.mp he']
    exact h.2 e he
  · rcases List.mem_append.mp he with he | he
    · exact h.2 e he
    · rw [List.mem_singleton.mp he]

/-- What an operation does to the sink and the clock: nothing, or one more event at the
present time. -/
theorem audit_step (env : Environment) (tid : Nat) (op : Op) (s : State) :
    (exec env tid op s).2.now = s.now ∧ (exec env tid op s).2.utc = s.utc ∧
      ((exec env tid op s).2.audit = s.audit ∨ ∃ action outcome subject resourceId correlationId,
        (exec env tid op s).2.audit =
          recordAudit s.audit s.utc action outcome subject resourceId correlationId) := by
  cases op with
  | auditRecord => exact ⟨rfl, rfl, .inr ⟨_, _, _, _, _, rfl⟩⟩
  | _ => exact ⟨rfl, rfl, .inl rfl⟩

theorem Reachable.numbered (hc : Reachable env c) : Numbered c.state.audit := by
  obtain ⟨now, utc, h⟩ := hc
  induction h with
  | refl => exact ⟨rfl, fun _ he => by cases he⟩
  | @step c₁ _ m ih =>
    rcases (system env).step_cases c₁ m with he | ⟨call, he⟩ | ⟨tid, t, op, next, -, -, he⟩ |
      ⟨t, he⟩ <;> rw [he]
    · exact ih
    · exact ih
    · change Numbered (exec env tid op c₁.state).2.audit
      obtain ⟨-, -, ha | ⟨_, _, _, _, _, ha⟩⟩ := audit_step env tid op c₁.state <;> rw [ha]
      · exact ih
      · exact ih.record ..
    · exact ih

theorem inOrder_of_forward {now : Datetime}
    (h : (system env).ReachesVia Forward (initial now now) c) :
    c.state.now = c.state.utc ∧ InOrder c.state.audit c.state.utc := by
  refine h.induct (P := fun c => c.state.now = c.state.utc ∧
    InOrder c.state.audit c.state.utc) ⟨rfl, .nil, fun _ he => by cases he⟩ ?_ ?_ ?_
  · exact fun _ _ _ ih => ih
  · rintro c₁ tid t op next - - ⟨hclock, ho⟩ - -
    change (exec env tid op c₁.state).2.now = (exec env tid op c₁.state).2.utc ∧
      InOrder (exec env tid op c₁.state).2.audit (exec env tid op c₁.state).2.utc
    obtain ⟨hnow, hutc, ha | ⟨_, _, _, _, _, ha⟩⟩ := audit_step env tid op c₁.state <;>
      rw [hnow, hutc, ha]
    · exact ⟨hclock, ho⟩
    · exact ⟨hclock, ho.record ..⟩
  · rintro c₁ t - ⟨heq, hle⟩ ⟨hclock, ho⟩
    refine ⟨heq, ho.1, fun e he => (ho.2 e he).trans ?_⟩
    change c₁.state.utc ≤ t.2
    rw [← hclock, ← heq]
    exact hle

/-- **The sink is a numbered log.** In every run its `i`-th event has the `i`-th
identifier, no identifier comes twice, the decision of an event is its outcome, and what
was recorded stays where it is. When the clock never goes back, the events are in the
order of their times. -/
theorem audit_log (hf : Function.Injective env.idFactory) (hc : Reachable env c)
    (hrun : (system env).Reaches c c') :
    (∀ i (e : AuditEvent), c.state.audit[i]? = some e →
      e.eventId = auditId i ∧ e.decision = e.outcome ∧ c'.state.audit[i]? = some e) ∧
    (c.state.audit.map AuditEvent.eventId).Nodup ∧
    ∀ now, (system env).ReachesVia Forward (initial now now) c →
      c.state.audit.Pairwise fun e e' => e.occurredAt ≤ e'.occurredAt := by
  have hn := hc.numbered
  refine ⟨fun i e he => ⟨?_, hn.2 e (List.mem_of_getElem? he), ?_⟩, ?_, fun now h =>
    (inOrder_of_forward h).2.1⟩
  · have hi := congrArg (·[i]?) hn.1
    have hlt : i < c.state.audit.length := (List.getElem?_eq_some_iff.mp he).1
    simp only [List.getElem?_map, he, List.getElem?_range hlt, Option.map_some] at hi
    exact Option.some.inj hi
  · obtain ⟨more, hmore⟩ := (hc.evolve hf hrun).audit
    rw [← hmore, List.getElem?_append_left (List.getElem?_eq_some_iff.mp he).1]
    exact he
  · rw [hn.1]
    exact List.nodup_range.map auditId_injective

/-- A delivery ten ticks after the approval keeps the events that were there, and its own
are behind them in the order of time. -/
theorem audit_log_promptDelivery :
    (∀ i e, ((system sampleEnv).play (initial 0 0) approvedRun).state.audit[i]? = some e →
      e.eventId = auditId i ∧ e.decision = e.outcome ∧
        ((system sampleEnv).play (initial 0 0) promptDelivery).state.audit[i]? = some e) ∧
    ((system sampleEnv).play (initial 0 0) promptDelivery).state.audit.Pairwise
      fun e e' => e.occurredAt ≤ e'.occurredAt := by
  have hrun : (system sampleEnv).Reaches ((system sampleEnv).play (initial 0 0) approvedRun)
      ((system sampleEnv).play (initial 0 0) promptDelivery) := by
    rw [promptDelivery, System.play, System.play, List.append_assoc, List.foldl_append]
    exact System.reaches_play _ _ _
  have hok : (system sampleEnv).Allows Forward (initial 0 0) promptDelivery := by decide
  exact ⟨(audit_log sampleId_injective (reachable_play sampleEnv 0 0 approvedRun) hrun).1,
    (audit_log sampleId_injective (reachable_play sampleEnv 0 0 promptDelivery) .refl).2.2 0
      (System.ReachesVia.refl.play hok)⟩

end AgenticDelivery.Api
