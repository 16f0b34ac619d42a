import AgenticDelivery.Api.HttpObservations
import AgenticDelivery.Api.Provenance

/-! # What comes through the boundary

What is stored was sent: every workflow, plan, decision and delivery goes back to a
request whose credential, headers and body the boundary has accepted, and so does every
event of the audit sink. -/
namespace AgenticDelivery.Api
open AgenticDelivery.Atomic AgenticDelivery.Data AgenticDelivery.Governance AgenticDelivery.Runtime
open Program

variable {ν : Type} {env : Environment} {settings : ApiSettings} {durations : Durations ν}
  {c : HttpConfig ν} {request : HttpRequest ν} {call : Call}

/-! ## Accepted requests -/

/-- Who the credentials stand for. -/
theorem verify_cases {credential : String} {principal : Principal}
    (h : verify credential = some principal) : principal = localRequester ∨
      principal = localReviewer ∨ principal = localOperator ∨ principal = localAdministrator := by
  unfold verify at h
  split at h
  · exact .inl (Option.some.inj h).symm
  split at h
  · exact .inr (.inl (Option.some.inj h).symm)
  split at h
  · exact .inr (.inr (.inl (Option.some.inj h).symm))
  split at h
  · exact .inr (.inr (.inr (Option.some.inj h).symm))
  · cases h

/-- The identities that have one of the roles. -/
theorem principal_of_roles {principal local_ : Principal} {role : Role}
    (h : request.principal = some principal)
    (hroles : principal.roles ∩ {role, .administrator} ≠ ∅)
    (hlocal : ∀ p ∈ [localRequester, localReviewer, localOperator], role ∈ p.roles → p = local_) :
    principal = local_ ∨ principal = localAdministrator := by
  obtain ⟨credential, -, hv⟩ := Option.bind_eq_some_iff.mp h
  have hrole : principal ≠ localAdministrator → role ∈ principal.roles := by
    intro hne
    obtain ⟨r, hinter⟩ := Finset.nonempty_iff_ne_empty.mpr hroles
    obtain ⟨hr, hmem⟩ := Finset.mem_inter.mp hinter
    rcases Finset.mem_insert.mp hmem with rfl | hadmin
    · exact hr
    · rw [Finset.mem_singleton.mp hadmin] at hr
      rcases verify_cases hv with rfl | rfl | rfl | rfl
      · exact absurd hr (by decide)
      · exact absurd hr (by decide)
      · exact absurd hr (by decide)
      · exact absurd rfl hne
  by_cases hadmin : principal = localAdministrator
  · exact .inr hadmin
  · refine .inl (hlocal principal ?_ (hrole hadmin))
    rcases verify_cases hv with rfl | rfl | rfl | rfl
    · exact List.mem_cons_self
    · exact .tail _ List.mem_cons_self
    · exact .tail _ (.tail _ List.mem_cons_self)
    · exact absurd rfl hadmin

theorem metadata_of_correlation {correlation : String}
    (h : request.correlation = some correlation) : Metadata correlation := by
  unfold HttpRequest.correlation at h
  split at h
  · cases h
    exact request.uuid_metadata
  · split at h
    · cases h
      assumption
    · cases h

theorem metadata_of_key {key : String} (h : request.key = some key) :
    8 ≤ key.length ∧ Metadata key := by
  unfold HttpRequest.key idempotencyKey at h
  cases hh : request.idempotencyHeader with
  | none =>
    rw [hh] at h
    cases h
  | some value =>
    simp only [hh] at h
    by_cases hbad : value.length < 8 ∨ ¬Metadata value
    · rw [if_pos hbad] at h
      cases h
    · rw [if_neg hbad] at h
      cases h
      rw [not_or, not_not, Nat.not_lt] at hbad
      exact hbad

/-- The identity and the correlation id of a request are those of its call. -/
theorem identity_of_serviceCall (h : request.serviceCall = some call) :
    request.principal = some call.principal ∧ request.correlation = some call.correlationId := by
  obtain ⟨principal, correlation, hp, hc, ⟨_, -, rfl⟩ | ⟨_, -, ⟨_, -, rfl⟩ | ⟨_, -, rfl⟩ |
    ⟨_, _, -, rfl⟩ | ⟨-, rfl⟩⟩⟩ := serviceCall_cases h
  · exact ⟨hp, hc⟩
  · exact ⟨hp, hc⟩
  · exact ⟨hp, hc⟩
  · exact ⟨hp, hc⟩
  · exact ⟨hp, hc⟩

/-! ## What is stored -/

/-- A request of the run is for this call. -/
def RequestedIn (c : HttpConfig ν) (call : Call) : Prop :=
  ∃ t ∈ c.threads, t.call.serviceCall = some call

/-- Nobody is what makes a call that no request is for. -/
theorem not_advance_idleCall {w w' : Workflow} : ¬Advance env idleCall w w' := by
  intro h
  generalize hidle : idleCall = call at h
  cases h with
  | expireApproval authorised | beginExecution authorised | completeExecution authorised =>
    cases hidle
    exact authorised (by decide)
  | _ => cases hidle

/-- **Every stored workflow was made by the requests of the run.** -/
theorem Served.made (hf : Function.Injective env.idFactory) (hc : Served env settings durations c)
    {id : String} {w : Workflow} (hw : c.state.service.stored id = some w) :
    Made env (RequestedIn c) w := by
  obtain ⟨c', hc', hcarry⟩ := hc.carries
  have hw' : c'.state.stored id = some w := by
    have hstate : ButAudit c.state.service c'.state := hcarry.shares
    rw [ButAudit] at hstate
    rw [hstate]
    exact hw
  have requested : ∀ call, CalledIn c' call → call = idleCall ∨ RequestedIn c call := by
    rintro call ⟨t', ht', rfl⟩
    obtain ⟨tid, ht'⟩ := List.getElem?_of_mem ht'
    have hlt : tid < c.threads.length := by
      rw [← hcarry.length]
      exact (List.getElem?_eq_some_iff.mp ht').1
    obtain ⟨u', hu', hm⟩ := hcarry.makes tid _ (List.getElem?_eq_getElem hlt)
    obtain rfl := Option.some.inj (ht'.symm.trans hu')
    cases hcall : c.threads[tid].call.serviceCall with
    | none =>
      left
      rw [hm.call]
      change c.threads[tid].call.serviceCall.getD idleCall = idleCall
      rw [hcall]
      rfl
    | some call =>
      refine .inr ⟨_, List.getElem_mem hlt, ?_⟩
      rw [call_of_makes hm hcall]
      exact hcall
  refine (hc'.made hf hw').mono (fun r h => ?_) fun call v v' h ha => ?_
  · exact (requested _ h).resolve_left fun he => by cases he
  · exact (requested _ h).resolve_left fun he => not_advance_idleCall (he ▸ ha)

/-- What is stored, and the requests that it comes from. -/
structure Submitted (c : HttpConfig ν) (w : Workflow) : Prop where
  /-- created for a text of the published length, under a proper correlation id, for a
  requester or an administrator -/
  created : ∃ t ∈ c.threads, ∃ payload principal,
    t.call.endpoint = .createServiceRequest (.valid payload) ∧
      t.call.principal = some principal ∧
      (principal = localRequester ∨ principal = localAdministrator) ∧
      w.ownerId = principal.subject ∧ w.request = normalizeRequest payload.request ∧
      t.call.correlation = some w.correlationId ∧ Metadata w.correlationId
  /-- planned for its owner or an administrator -/
  planned : w.planningResult ≠ none → ∃ t ∈ c.threads, ∃ principal,
    t.call.endpoint = .planWorkflow w.workflowId ∧ t.call.principal = some principal ∧
      (w.ownerId = principal.subject ∨ principal = localAdministrator)
  /-- decided by a reviewer or an administrator other than the owner, with a reason of the
  published length and a proper key -/
  decided : ∀ a, w.approvalDecision = some a → ∃ t ∈ c.threads, ∃ payload principal,
    t.call.endpoint = .decideWorkflowApproval w.workflowId (.valid payload) ∧
      t.call.principal = some principal ∧
      (principal = localReviewer ∨ principal = localAdministrator) ∧
      w.ownerId ≠ principal.subject ∧ a.reviewerId = principal.subject ∧
      a.decision = payload.decision ∧ a.reason = payload.reason ∧
      t.call.key = some a.idempotencyKey ∧ 8 ≤ a.idempotencyKey.length ∧ Metadata a.idempotencyKey
  /-- executed for an operator or an administrator -/
  executed : w.status = .executing ∨ w.status = .completed → ∃ t ∈ c.threads, ∃ principal,
    t.call.endpoint = .processNextLocalTask ∧ t.call.principal = some principal ∧
      (principal = localOperator ∨ principal = localAdministrator)

/-- **What is stored was sent, and accepted at the boundary.** In every configuration of
every run of the application, however the requests interleave, each stored workflow goes
back to a request for it that was accepted, and so do its plan, its decision with the
reviewer, the reason and the key, and its execution. -/
theorem stored_submitted (hf : Function.Injective env.idFactory)
    (hc : Served env settings durations c) :
    ∀ id w, c.state.service.stored id = some w → Submitted c w := by
  intro id w hw
  have hmade := hc.made hf hw
  refine ⟨?_, fun hp => ?_, fun a ha => ?_, fun hs => ?_⟩
  · obtain ⟨r, id', now, ⟨t, ht, hcall⟩, hadmitted, hg⟩ := hmade.created
    obtain ⟨principal, correlation, hp, hcorrelation, ⟨_, -, he⟩ | ⟨key, hk, ⟨payload, hend, he⟩ |
      ⟨_, -, he⟩ | ⟨_, _, -, he⟩ | ⟨-, he⟩⟩⟩ := serviceCall_cases hcall <;> cases he
    have hid : w.correlationId = correlation := hg.correlationId
    refine ⟨t, ht, payload, principal, hend, hp, ?_, hg.ownerId, hg.request, ?_, ?_⟩
    · exact principal_of_roles hp hadmitted.role (by decide)
    · rw [hid]
      exact hcorrelation
    · rw [hid]
      exact metadata_of_correlation hcorrelation
  · obtain ⟨principal, correlationId, ⟨t, ht, hcall⟩, hmay⟩ := hmade.planned hp
    obtain ⟨principal', _, hprincipal, -, ⟨_, -, he⟩ | ⟨_, -, ⟨_, -, he⟩ | ⟨_, hend, he⟩ |
      ⟨_, _, -, he⟩ | ⟨-, he⟩⟩⟩ := serviceCall_cases hcall <;> cases he
    refine ⟨t, ht, principal, hend, hprincipal, hmay.imp_right fun hadmin => ?_⟩
    obtain ⟨credential, -, hv⟩ := Option.bind_eq_some_iff.mp hprincipal
    rcases verify_cases hv with rfl | rfl | rfl | rfl
    · exact absurd hadmin (by decide)
    · exact absurd hadmin (by decide)
    · exact absurd hadmin (by decide)
    · rfl
  · obtain ⟨principal, correlationId, ⟨t, ht, hcall⟩, hroles, howner, hreviewer⟩ := hmade.decided ha
    obtain ⟨principal', _, hprincipal, -, ⟨_, -, he⟩ | ⟨key, hk, ⟨_, -, he⟩ | ⟨_, -, he⟩ |
      ⟨_, payload, hend, he⟩ | ⟨-, he⟩⟩⟩ := serviceCall_cases hcall <;>
      simp only [Call.decideApproval.injEq, reduceCtorEq] at he
    obtain ⟨rfl, rfl, hdecision, hreason, rfl, rfl⟩ := he
    exact ⟨t, ht, payload, principal, hend, hprincipal,
      principal_of_roles hprincipal hroles (by decide), howner, hreviewer, hdecision, hreason, hk,
      metadata_of_key hk⟩
  · obtain ⟨principal, correlationId, ⟨t, ht, hcall⟩, hroles⟩ := hmade.executed hs
    obtain ⟨principal', _, hprincipal, -, ⟨_, -, he⟩ | ⟨_, -, ⟨_, -, he⟩ | ⟨_, -, he⟩ |
      ⟨_, _, -, he⟩ | ⟨hend, he⟩⟩⟩ := serviceCall_cases hcall <;> cases he
    exact ⟨t, ht, principal, hend, hprincipal, principal_of_roles hprincipal hroles (by decide)⟩

/-! ## What is recorded -/

def httpNoteOf : HttpEvent ν → Option Note
  | ⟨.service op, r⟩ => noteOf ⟨op, r⟩
  | ⟨.auditRecord action outcome subject resourceId correlationId, _⟩ =>
    some ⟨action, outcome, subject, resourceId, correlationId⟩
  | _ => none

/-- The sink holds the notes of the requests, shuffled. -/
theorem Served.audit_notes (hc : Served env settings durations c) :
    (c.state.service.audit.map AuditEvent.note).Perm
      (c.threads.flatMap fun t => t.log.filterMap httpNoteOf) := by
  obtain ⟨now, utc, monotonic, h⟩ := hc
  refine h.journal (fun s => s.service.audit.map AuditEvent.note) httpNoteOf rfl rfl ?_
    fun _ _ => rfl
  intro tid op s
  cases op with
  | auditRecord => exact List.map_append
  | service op =>
    cases op with
    | auditRecord => exact List.map_append
    | repositoryCreate w key => exact (List.append_nil _).symm
    | repositoryUpdate w v => exact (List.append_nil _).symm
    | _ => exact (List.append_nil _).symm
  | _ => exact (List.append_nil _).symm

theorem Known.congr {s s' : State} {w : Workflow} (h : ButAudit s s') (hk : Known env w s') :
    Known env w s := by
  rw [ButAudit] at h
  rw [h] at hk
  exact ⟨hk.life, hk.stored⟩

/-- What is known stays so, whatever is served after it. -/
theorem Known.reaches {w : Workflow} {c' : HttpConfig ν} (hf : Function.Injective env.idFactory)
    (hc : Served env settings durations c)
    (hr : (application env settings durations).Reaches c c')
    (hk : Known env w c.state.service) : Known env w c'.state.service := by
  obtain ⟨d, hd, hcarry⟩ := hc.carries
  obtain ⟨d', hreach, hcarry'⟩ := Layer.reaches hr hcarry
  have hshares : ButAudit c.state.service d.state := hcarry.shares
  have hk : Known env w d.state := hk.congr hshares.symm
  exact (hk.evolve (hd.evolve hf hreach)).congr hcarry'.shares

/-- What stands behind an event of the application's sink: a request of its subject and
under its correlation id, that is for a call which bears it out, or for the operations. -/
def Evidenced (env : Environment) (c : HttpConfig ν) (e : AuditEvent) : Prop :=
  ∃ t ∈ c.threads, ∃ principal, t.call.principal = some principal ∧
    e.subject = some principal.subject ∧ t.call.correlation = some e.correlationId ∧
    ((∃ call, t.call.serviceCall = some call ∧ Borne env (Known env · c.state.service)
        (t.born.service.stored · = none) call e.action e.outcome e.resourceId) ∨
      e.resourceId = none ∧ Operation principal t.call.endpoint e.action e.outcome)

/-- **The sink of the application tells the truth.** Each of its events goes back to an
accepted request, under the verified subject and the correlation id of that request; and
what it says is so: of the service, what `Borne` lists, and of the operations, whether the
role was there. -/
theorem events_evidenced (hf : Function.Injective env.idFactory)
    (hc : Served env settings durations c) : ∀ e ∈ c.state.service.audit, Evidenced env c e := by
  intro e he
  have hm := hc.audit_notes.mem_iff.mp (List.mem_map_of_mem (f := AuditEvent.note) he)
  obtain ⟨t, htm, hn⟩ := List.mem_flatMap.mp hm
  obtain ⟨x, hx, hnote⟩ := List.mem_filterMap.mp hn
  obtain ⟨tid, ht⟩ := List.getElem?_of_mem htm
  obtain ⟨before, after, hlog⟩ := List.append_of_mem hx
  obtain ⟨⟨-, hfits⟩, -⟩ := (hc.keeps ht).1.fits hlog
  obtain ⟨op, r⟩ := x
  cases op with
  | service op =>
    obtain ⟨call, hcall⟩ := Option.ne_none_iff_exists'.mp hfits.1
    obtain ⟨c', hc', hcarry⟩ := hc.carries
    obtain ⟨t', ht', hmakes⟩ := hcarry.makes tid t ht
    have hn' : e.note ∈ notes t'.log := by
      rw [hmakes.log]
      exact List.mem_filterMap.mpr ⟨⟨op, r⟩, List.mem_filterMap.mpr ⟨_, hx, rfl⟩, hnote⟩
    obtain ⟨hs, hcid, hb⟩ := hc'.borne hf ht' hn'
    rw [call_of_makes hmakes hcall] at hs hcid hb
    obtain ⟨hp, hcorrelation⟩ := identity_of_serviceCall hcall
    have hcid : e.correlationId = call.correlationId := hcid
    have hborn : ButAudit t.born.service t'.born := hmakes.born
    refine ⟨t, htm, call.principal, hp, hs, hcid ▸ hcorrelation, .inl ⟨call, hcall, ?_⟩⟩
    refine hb.mono (fun w hw => hw.congr hcarry.shares) fun id hid => ?_
    rw [ButAudit] at hborn
    rw [hborn] at hid
    exact hid
  | auditRecord =>
    obtain ⟨principal, hp, rfl, rfl, hcorrelation, hop⟩ := hfits
    obtain ⟨ha, ho, hs, hr, hcid⟩ : e.action = _ ∧ e.outcome = _ ∧ e.subject = _ ∧
        e.resourceId = _ ∧ e.correlationId = _ := by
      have h := Option.some.inj hnote
      exact ⟨(congrArg Note.action h).symm, (congrArg Note.outcome h).symm,
        (congrArg Note.subject h).symm, (congrArg Note.resourceId h).symm,
        (congrArg Note.correlationId h).symm⟩
    refine ⟨t, htm, principal, hp, hs, hcid ▸ hcorrelation, .inr ⟨hr, ?_⟩⟩
    rw [ha, ho]
    exact hop
  | _ => cases hnote

/-! ## What is shown -/

/-- A request that is answered with a workflow has made a call that has returned it. -/
theorem answered_workflow (hf : Function.Injective env.idFactory) {c' : PoolConfig}
    (hc' : Reachable env c') (hcarry : (serviceLayer env settings durations).Carries c c')
    {tid : Nat} {t : HttpThread ν} (ht : c.threads[tid]? = some t) {response : Response ν}
    {body : WorkflowResponse} (hr : t.rest.returned = some response)
    (hbody : response.body = .workflow body) :
    ∃ t' w, c'.threads[tid]? = some t' ∧ t.call.serviceCall = some t'.call ∧
      t'.rest.outcome = some (.ok w) ∧ body = w.response := by
  obtain ⟨t', ht', hm⟩ := hcarry.makes tid t ht
  rcases hm.rest.finished (outcome_of_returned hr) with
    ⟨-, _, he, hno⟩ | ⟨call, correlation, hcall, -, he | ⟨o, ho, he⟩⟩
  · cases he
    exact absurd hbody (hno body)
  · cases he
    cases hbody
  · cases o with
    | error failure =>
      have he : (.ok response : Except Failure (Response ν)) = errorAnswer correlation failure := he
      unfold errorAnswer at he
      cases hhandled : (HttpError.service failure).handled correlation with
      | ok problem =>
        rw [hhandled] at he
        cases he
        cases hbody
      | error failure' =>
        rw [hhandled] at he
        cases he
    | ok w =>
      have hlife := (hc'.returned hf ht' ho).1.life
      unfold HttpRequest.answer at he
      rw [Except.bind, fromDomain_of_life hlife] at he
      cases he
      cases hbody
      exact ⟨t', w, ht', by rw [hcall, call_of_makes hm hcall], ho, rfl⟩

/-- **A workflow is shown to those who may read it, and as it was stored.** Whoever is
answered with a workflow, by whatever endpoint and however the requests interleave, owns
it or is a reviewer, an operator or an administrator; and it is a version of it that was
stored. -/
theorem workflows_shown (hf : Function.Injective env.idFactory)
    (hc : Served env settings durations c) :
    ∀ t ∈ c.threads, ∀ response body, t.rest.returned = some response →
      response.body = .workflow body →
      ∃ principal w, t.call.principal = some principal ∧
        (w.ownerId = principal.subject ∨
          principal ∈ [localReviewer, localOperator, localAdministrator]) ∧
        body = w.response ∧ Known env w c.state.service := by
  intro t ht response body hr hbody
  obtain ⟨tid, ht⟩ := List.getElem?_of_mem ht
  obtain ⟨c', hc', hcarry⟩ := hc.carries
  obtain ⟨t', w, ht', hcall, ho, rfl⟩ := answered_workflow hf hc' hcarry ht hr hbody
  obtain ⟨hknown, hmay⟩ := hc'.returned hf ht' ho
  have hp := (identity_of_serviceCall hcall).1
  refine ⟨t'.call.principal, w, hp, hmay.imp_right fun hroles => ?_, rfl,
    hknown.congr hcarry.shares⟩
  obtain ⟨credential, -, hv⟩ := Option.bind_eq_some_iff.mp hp
  rcases verify_cases hv with he | he | he | he <;> rw [he] at hroles ⊢
  · exact absurd (by decide) hroles
  · decide
  · decide
  · decide

/-! ### The request of the examples -/

def Response.workflowId (response : Response ν) : Option String :=
  match response.body with
  | .workflow body => some body.workflowId
  | _ => none

/-- What it has stored was sent by the requester, as it is. -/
theorem stored_submitted_servedRequest : ∃ w, servedRequest.state.service.stored "w" = some w ∧
    Submitted servedRequest w := by
  have h : (servedRequest.state.service.stored "w").isSome = true := by decide
  obtain ⟨w, hw⟩ := Option.isSome_iff_exists.mp h
  exact ⟨w, hw, stored_submitted sampleId_injective served_servedRequest "w" w hw⟩

/-- Its acceptance is in the sink, and so it was. -/
theorem events_evidenced_servedRequest : ∃ e ∈ servedRequest.state.service.audit,
    e.outcome = "accepted" ∧ Evidenced sampleEnv servedRequest e := by
  have h : (servedRequest.state.service.audit.find? fun e => e.outcome = "accepted").isSome =
      true := by decide
  obtain ⟨e, he⟩ := Option.isSome_iff_exists.mp h
  have hm := List.mem_of_find?_eq_some he
  have ho := List.find?_some he
  exact ⟨e, hm, of_decide_eq_true ho,
    events_evidenced sampleId_injective served_servedRequest e hm⟩

/-- The workflow that it is answered with is one of its own. -/
theorem workflows_shown_servedRequest : ∃ w, Known sampleEnv w servedRequest.state.service ∧
    w.ownerId = "local-requester" := by
  have h : (servedRequest.threads[0]?.any fun t => t.call.principal = some localRequester ∧
      t.rest.returned.bind Response.workflowId = some "w") = true := by decide
  obtain ⟨t, ht, h⟩ := (Option.any_eq_true _ _).mp h
  obtain ⟨hprincipal, hshown⟩ := of_decide_eq_true h
  obtain ⟨response, hr, hshown⟩ := Option.bind_eq_some_iff.mp hshown
  unfold Response.workflowId at hshown
  split at hshown
  · rename_i body hbody
    obtain ⟨principal, w, hp, hmay, -, hknown⟩ := workflows_shown sampleId_injective
      served_servedRequest t (List.mem_of_getElem? ht) response body hr hbody
    obtain rfl := Option.some.inj (hprincipal.symm.trans hp)
    exact ⟨w, hknown, hmay.resolve_right (by decide)⟩
  · cases hshown

end AgenticDelivery.Api
