import AgenticDelivery.Api.AuditLog
import AgenticDelivery.Api.AuditTruth
import AgenticDelivery.Api.HttpRules
import AgenticDelivery.Api.LocalOutcomes

/-! # What the operators see

The telemetry has each request that was answered, once and as it was answered; the
pages of the audit sink and the snapshots of the telemetry are handed out to those who
may have them, and show what was there. -/
namespace AgenticDelivery.Api
open AgenticDelivery.Atomic AgenticDelivery.Data AgenticDelivery.Governance AgenticDelivery.Runtime
open Program

variable {ν : Type} {u : Unicode} {mode : EnforcementMode} {env : Environment}
  {settings : ApiSettings} {durations : Durations ν} {c : HttpConfig ν}

/-! ## Every request is answered -/

theorem fromDomain_of_life {w : Workflow} (h : Lifecycle env w) :
    WorkflowResponse.fromDomain w = .ok w.response :=
  if_pos h.status_mem

/-- In the default composition no request ends with an error that no handler takes. -/
theorem Served.not_raised (hf : Function.Injective env.idFactory) (hp : DefaultPorts u mode env)
    (hc : Served env settings durations c) {t : HttpThread ν} (ht : t ∈ c.threads)
    (e : Failure) : t.rest.outcome ≠ some (.error e) := by
  intro ho
  obtain ⟨tid, ht⟩ := List.getElem?_of_mem ht
  obtain ⟨c', hc', hcarry⟩ := hc.carries
  obtain ⟨t', ht', hm⟩ := hcarry.makes tid t ht
  rcases hm.rest.finished ho with ⟨-, _, he, -⟩ | ⟨_, correlation, -, -, he | ⟨o, ho', he⟩⟩
  · cases he
  · cases he
  · unfold HttpRequest.answer at he
    cases o with
    | ok w =>
      rw [Except.bind, fromDomain_of_life (hc'.returned hf ht' ho').1.life] at he
      cases he
    | error failure =>
      have happ := hc'.raised hf hp (List.mem_of_getElem? ht') ho'
      cases failure with
      | application kind detail => cases he
      | valueError | keyError | indexError | runtime => exact happ

/-! ## The telemetry -/

/-- A request has recorded what it has answered, when it has answered. -/
theorem Served.observations_eq (hc : Served env settings durations c) {t : HttpThread ν}
    (ht : t ∈ c.threads) : observations durations t.log =
      (t.rest.returned.map (t.call.observation durations)).toList := by
  obtain ⟨tid, ht⟩ := List.getElem?_of_mem ht
  have hk := (hc.keeps ht).2
  cases hr : t.rest with
  | done response =>
    rw [hr] at hk
    exact hk.1
  | raise error =>
    rw [hr] at hk
    exact hk
  | call op next =>
    rw [hr] at hk
    exact hk.1.1

/-- The telemetry has what the requests have recorded. -/
theorem Served.telemetry_perm (hc : Served env settings durations c) :
    (c.state.telemetry.observations.map RequestObservation.untimed).Perm
      (c.threads.filterMap fun t => t.rest.returned.map (t.call.observation durations)) := by
  have hlogs : c.threads.flatMap (fun t => observations durations t.log) =
      c.threads.filterMap fun t => t.rest.returned.map (t.call.observation durations) := by
    rw [List.filterMap_eq_flatMap_toList]
    exact List.flatMap_congr fun t ht => hc.observations_eq ht
  rw [← hlogs]
  obtain ⟨now, utc, monotonic, h⟩ := hc
  refine h.journal (fun s => s.telemetry.observations.map RequestObservation.untimed)
    (observationOf durations) rfl rfl (fun tid op s => ?_) (fun _ _ => rfl)
  cases op with
  | telemetryRecord method route statusCode durationMs correlationId =>
    exact List.map_append
  | _ => exact (List.append_nil _).symm

/-- **The telemetry has every request, as it was answered.** In the default composition,
however the requests interleave, each request that has ended was answered, and the
observations are those of the answers, one for each: so the totals of a snapshot are the
numbers of the requests that have ended, and of those that were refused. -/
theorem telemetry_complete (hf : Function.Injective env.idFactory) (hp : DefaultPorts u mode env)
    (hc : Served env settings durations c) :
    (c.state.telemetry.observations.map RequestObservation.untimed).Perm
      (c.threads.filterMap fun t => t.rest.returned.map (t.call.observation durations)) ∧
    ∀ recentLimit,
      (c.state.telemetry.snapshot durations recentLimit).totalRequests =
        c.threads.countP (fun t => t.rest.outcome.isSome) ∧
      (c.state.telemetry.snapshot durations recentLimit).errorRequests =
        c.threads.countP fun t =>
          t.rest.returned.any fun response => 400 ≤ response.statusCode := by
  have hperm := hc.telemetry_perm
  refine ⟨hperm, fun recentLimit => ⟨?_, ?_⟩⟩
  · have hlen := hperm.length_eq
    rw [List.length_map, List.length_filterMap_eq_countP] at hlen
    refine hlen.trans (List.countP_congr fun t ht => ?_)
    cases hr : t.rest with
    | done response => simp [Program.returned, Program.outcome]
    | raise error => exact absurd (by rw [hr]; rfl) (hc.not_raised hf hp ht error)
    | call op next => simp [Program.returned, Program.outcome]
  · have hcount := hperm.countP_eq fun item => decide (400 ≤ item.statusCode)
    rw [List.countP_map, List.countP_filterMap] at hcount
    refine hcount.trans (List.countP_congr fun t _ => ?_)
    cases t.rest.returned <;> rfl

/-- A read of a workflow that is not there. -/
def hiddenRequest : HttpRequest Int :=
  { sampleHttpRequest with
    endpoint := .getWorkflow "w"
    correlationHeader := none
    idempotencyHeader := none }

/-- It is refused, and counted. -/
theorem telemetry_complete_hiddenRequest :
    (((localApplication localEnv).play (started localSettings 0 0 0)
      (.spawn hiddenRequest :: List.replicate 3 (.act 0))).state.telemetry.snapshot
        InMemoryOperationalTelemetry.wholeDurations).errorRequests = 1 := by
  have h := (telemetry_complete sampleId_injective localEnv_ports
    (⟨0, 0, 0, System.reaches_play _ _ (.spawn hiddenRequest :: List.replicate 3 (.act 0))⟩ :
      Served localEnv localSettings InMemoryOperationalTelemetry.wholeDurations _)).2 20
  rw [h.2]
  decide

/-! ## The operations -/

/-- What an event has shown of the sink and of the telemetry. -/
def ShownOf (durations : Durations ν) (s : HttpState ν) : HttpEvent ν → Prop
  | ⟨.auditEvents, events⟩ => events <+: s.service.audit
  | ⟨.telemetrySnapshot, snapshot⟩ => ∃ past, past <+: s.telemetry.observations ∧
      snapshot = ({ observations := past } : InMemoryOperationalTelemetry ν).snapshot durations
  | ⟨.auditRecord action outcome subject resourceId correlationId, _⟩ =>
    ∃ e ∈ s.service.audit, e.note = ⟨action, outcome, subject, resourceId, correlationId⟩
  | _ => True

/-- The sink and the telemetry are only appended to. -/
structure Appended (s s' : HttpState ν) : Prop where
  audit : s.service.audit <+: s'.service.audit
  telemetry : s.telemetry.observations <+: s'.telemetry.observations

theorem httpExec_appended (env : Environment) (durations : Durations ν) (tid : Nat) (op : HttpOp ν)
    (s : HttpState ν) : Appended s (httpExec env durations tid op s).2 := by
  cases op with
  | service op =>
    refine ⟨?_, List.prefix_rfl⟩
    change s.service.audit <+: (exec env tid op s.service).2.audit
    obtain ⟨-, -, ha | ⟨_, _, _, _, _, ha⟩⟩ := audit_step env tid op s.service <;> rw [ha]
    exact List.prefix_append _ _
  | auditRecord => exact ⟨List.prefix_append _ _, List.prefix_rfl⟩
  | telemetryRecord => exact ⟨List.prefix_rfl, List.prefix_append _ _⟩
  | _ => exact ⟨List.prefix_rfl, List.prefix_rfl⟩

theorem ShownOf.appended {s s' : HttpState ν} (ha : Appended s s') {e : HttpEvent ν}
    (h : ShownOf durations s e) : ShownOf durations s' e := by
  obtain ⟨op, r⟩ := e
  cases op with
  | auditEvents => exact List.IsPrefix.trans h ha.audit
  | telemetrySnapshot =>
    obtain ⟨past, hpast, h⟩ := h
    exact ⟨past, hpast.trans ha.telemetry, h⟩
  | auditRecord =>
    obtain ⟨e, he, h⟩ := h
    exact ⟨e, ha.audit.subset he, h⟩
  | _ => trivial

theorem Served.shown (hc : Served env settings durations c) {tid : Nat} {t : HttpThread ν}
    (ht : c.threads[tid]? = some t) {e : HttpEvent ν} (he : e ∈ t.log) :
    ShownOf durations c.state e := by
  obtain ⟨now, utc, monotonic, h⟩ := hc
  refine h.logged (fun _ e s => ShownOf durations s e) rfl ?_ ?_ ht he
  · intro c₁ tid t op next _ _ _
    cases op with
    | auditEvents => exact List.prefix_rfl
    | telemetrySnapshot => exact ⟨_, List.prefix_rfl, rfl⟩
    | auditRecord => exact ⟨_, List.mem_append_right _ List.mem_cons_self, rfl⟩
    | _ => trivial
  · intro c₁ m _ e _ hs
    rcases (application env settings durations).step_cases c₁ m with
      he | ⟨call, he⟩ | ⟨tid, t, op, next, -, -, he⟩ | ⟨t, he⟩ <;> rw [he]
    · exact hs
    · exact hs
    · exact hs.appended (httpExec_appended env durations tid op c₁.state)
    · exact hs.appended ⟨List.prefix_rfl, List.prefix_rfl⟩

def Response.page {ν : Type} (response : Response ν) : Option (List AuditEventResponse) :=
  match response.body with
  | .auditEvents page => some page
  | _ => none

end AgenticDelivery.Api
