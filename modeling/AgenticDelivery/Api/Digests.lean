import AgenticDelivery.Api.ActionPayload
import AgenticDelivery.Api.SideEffects
import AgenticDelivery.Governance.Policy

/-! # What the identifiers stand for

Proposals, approvals, tasks, tickets and policy decisions are identified by digests of
canonical texts. No text is hashed for two purposes, and each determines all that went
into it. -/
namespace AgenticDelivery.Api
open AgenticDelivery.Atomic AgenticDelivery.Data AgenticDelivery.Governance AgenticDelivery.Runtime

/-! ## Hashed texts -/

/-- What is hashed, and for which purpose. -/
inductive Hashed
  | action (arguments : TicketArguments)
  | decision (decision : Decision) (idempotencyKey proposalDigest reviewerId : String)
  | task (workflowId : String)
  | execution (idempotencyKey proposalDigest : String)
  | policy (mode : EnforcementMode) (context : ProcessingContext)

namespace Hashed

/-- The value that `canonical_digest` is called on. -/
def json : Hashed → Json
  | action arguments => actionContract arguments
  | .decision d idempotencyKey proposalDigest reviewerId =>
    .obj [("decision", .str d.value), ("idempotencyKey", .str idempotencyKey),
      ("proposalDigest", .str proposalDigest), ("reviewerId", .str reviewerId)]
  | task workflowId => .obj [("workflowId", .str workflowId)]
  | execution idempotencyKey proposalDigest =>
    .obj [("idempotencyKey", .str idempotencyKey), ("proposalDigest", .str proposalDigest)]
  | policy mode context =>
    .obj [("context", context.modelDump), ("mode", .str mode.value),
      ("outcome", .str (BaselinePolicyEngine.evaluate mode context).outcome.value),
      ("policy", .str policyVersion)]

def digest (h : Hashed) : String := canonicalDigest h.json

end Hashed

/-! ## In the order of the keys -/

theorem sortItems_map_str (items : List String) :
    Json.sortItems (items.map .str) = items.map .str := by
  induction items with
  | nil => rfl
  | cons item items ih => rw [List.map_cons, Json.sortItems, Json.sortKeys, ih]

theorem sortKeys_dataProfile (profile : DataProfile) : profile.modelDump.sortKeys =
    .obj [("categories", .arr ((profile.categories.map DataCategory.value).map .str)),
      ("classification", .str profile.classification.value),
      ("detectionBasis", .arr (profile.detectionBasis.map .str))] := by
  have hcategories : profile.categories.map (fun category => Json.str category.value) =
      (profile.categories.map DataCategory.value).map .str := by
    rw [List.map_map]
    rfl
  simp only [DataProfile.modelDump, Json.sortKeys, Json.sortFields, hcategories, sortItems_map_str]
  simp [List.insertionSort, List.orderedInsert]

theorem sortKeys_processingContext (context : ProcessingContext) : context.modelDump.sortKeys =
    .obj [("dataProfile", context.dataProfile.modelDump.sortKeys),
      ("jurisdiction", .str context.jurisdiction), ("operation", .str context.operation.value),
      ("overlayIds", .arr (context.overlayIds.map .str)), ("provider", .str context.provider),
      ("purpose", .str context.purpose.value), ("subjectId", .str context.subjectId),
      ("tenantId", .str context.tenantId)] := by
  simp only [ProcessingContext.modelDump, Json.sortKeys, Json.sortFields, sortItems_map_str]
  simp [List.insertionSort, List.orderedInsert]

/-- The keys of the text, by the purpose. -/
def Hashed.keys : Hashed → List String
  | .action _ => ["action", "arguments"]
  | .decision .. => ["decision", "idempotencyKey", "proposalDigest", "reviewerId"]
  | .task _ => ["workflowId"]
  | .execution .. => ["idempotencyKey", "proposalDigest"]
  | .policy .. => ["context", "mode", "outcome", "policy"]

/-- The values of the text, in the order of their keys. -/
def Hashed.values : Hashed → List Json
  | .action arguments => [.str "create_delivery_ticket", arguments.modelDump.sortKeys]
  | .decision d idempotencyKey proposalDigest reviewerId =>
    [.str d.value, .str idempotencyKey, .str proposalDigest, .str reviewerId]
  | .task workflowId => [.str workflowId]
  | .execution idempotencyKey proposalDigest => [.str idempotencyKey, .str proposalDigest]
  | .policy mode context => [context.modelDump.sortKeys, .str mode.value,
      .str (BaselinePolicyEngine.evaluate mode context).outcome.value, .str policyVersion]

theorem Hashed.sortKeys_json (h : Hashed) : h.json.sortKeys = .obj (h.keys.zip h.values) := by
  cases h <;>
    simp [Hashed.json, Hashed.keys, Hashed.values, actionContract, Json.sortKeys, Json.sortFields,
      List.insertionSort]

/-! ## Injectivity -/

theorem decisionValue_injective : Function.Injective Decision.value := by
  intro d d' h
  cases d <;> cases d' <;> first | rfl | exact absurd h (by decide)

theorem categoryValue_injective : Function.Injective DataCategory.value := by
  intro d d' h
  cases d <;> cases d' <;> first | rfl | exact absurd h (by decide)

theorem classificationValue_injective : Function.Injective DataClassification.value := by
  intro d d' h
  cases d <;> cases d' <;> first | rfl | exact absurd h (by decide)

theorem operationValue_injective : Function.Injective ProcessingOperation.value := by
  intro d d' h
  cases d <;> cases d' <;> first | rfl | exact absurd h (by decide)

theorem modeValue_injective : Function.Injective EnforcementMode.value := by
  intro d d' h
  cases d <;> cases d' <;> first | rfl | exact absurd h (by decide)

theorem map_str_injective : Function.Injective (List.map Json.str) :=
  List.map_injective_iff.mpr fun _ _ h => Json.str.inj h

theorem sortKeys_dataProfile_inj {profile profile' : DataProfile}
    (h : profile.modelDump.sortKeys = profile'.modelDump.sortKeys) : profile = profile' := by
  rw [sortKeys_dataProfile, sortKeys_dataProfile] at h
  simp only [Json.obj.injEq, Json.arr.injEq, Json.str.injEq, List.cons.injEq, Prod.mk.injEq,
    true_and, and_true, map_str_injective.eq_iff,
    (List.map_injective_iff.mpr categoryValue_injective).eq_iff,
    classificationValue_injective.eq_iff] at h
  obtain ⟨hcategories, hclassification, hbasis⟩ := h
  cases profile
  cases profile'
  rw [DataProfile.mk.injEq]
  exact ⟨hclassification, hcategories, hbasis⟩

theorem sortKeys_processingContext_inj {context context' : ProcessingContext}
    (h : context.modelDump.sortKeys = context'.modelDump.sortKeys) : context = context' := by
  rw [sortKeys_processingContext, sortKeys_processingContext] at h
  simp only [Json.obj.injEq, Json.arr.injEq, Json.str.injEq, List.cons.injEq, Prod.mk.injEq,
    true_and, and_true, map_str_injective.eq_iff, operationValue_injective.eq_iff] at h
  obtain ⟨hprofile, hjurisdiction, hoperation, hoverlays, hprovider, hsubject, htenant⟩ := h
  have hprofile := sortKeys_dataProfile_inj hprofile
  have hpurpose : ∀ p p' : ProcessingPurpose, p = p' := by
    intro p p'
    cases p
    cases p'
    rfl
  cases context
  cases context'
  rw [ProcessingContext.mk.injEq]
  exact ⟨hsubject, htenant, hpurpose _ _, hoperation, hprovider, hjurisdiction, hprofile, hoverlays⟩

/-- **A hashed text determines what it is hashed for, and all that is hashed.** -/
theorem Hashed.dumps_inj {h h' : Hashed} : h.json.dumps = h'.json.dumps ↔ h = h' := by
  refine ⟨fun heq => ?_, fun heq => by rw [heq]⟩
  have hsorted := Json.dumps_inj.mp heq
  rw [h.sortKeys_json, h'.sortKeys_json, Json.obj.injEq] at hsorted
  have hlen (k : Hashed) : k.keys.length = k.values.length := by cases k <;> rfl
  have hkeys := congrArg (List.map Prod.fst) hsorted
  have hvalues := congrArg (List.map Prod.snd) hsorted
  rw [List.map_fst_zip (hlen h).le, List.map_fst_zip (hlen h').le] at hkeys
  rw [List.map_snd_zip (hlen h).ge, List.map_snd_zip (hlen h').ge] at hvalues
  cases h with
  | action arguments =>
    cases h' with
    | action arguments' => rw [dumps_actionContract_inj.mp heq]
    | _ => exact absurd hkeys (by simp [Hashed.keys])
  | decision d idempotencyKey proposalDigest reviewerId =>
    cases h' with
    | decision =>
      simp only [Hashed.values, List.cons.injEq, Json.str.injEq, decisionValue_injective.eq_iff,
        and_true] at hvalues
      obtain ⟨rfl, rfl, rfl, rfl⟩ := hvalues
      rfl
    | _ => exact absurd hkeys (by simp [Hashed.keys])
  | task workflowId =>
    cases h' with
    | task =>
      simp only [Hashed.values, List.cons.injEq, Json.str.injEq, and_true] at hvalues
      rw [hvalues]
    | _ => exact absurd hkeys (by simp [Hashed.keys])
  | execution idempotencyKey proposalDigest =>
    cases h' with
    | execution =>
      simp only [Hashed.values, List.cons.injEq, Json.str.injEq, and_true] at hvalues
      obtain ⟨rfl, rfl⟩ := hvalues
      rfl
    | _ => exact absurd hkeys (by simp [Hashed.keys])
  | policy mode context =>
    cases h' with
    | policy mode' context' =>
      simp only [Hashed.values, List.cons.injEq, Json.str.injEq, modeValue_injective.eq_iff,
        and_true] at hvalues
      obtain ⟨hcontext, rfl, -⟩ := hvalues
      rw [sortKeys_processingContext_inj hcontext]
    | _ => exact absurd hkeys (by simp [Hashed.keys])

/-- Two different texts have one digest. -/
def Hashed.Collide (h h' : Hashed) : Prop := h.json.dumps ≠ h'.json.dumps ∧ h.digest = h'.digest

/-- One digest stands for one value, or two texts collide. -/
theorem Hashed.eq_or_collide {h h' : Hashed} (hd : h.digest = h'.digest) :
    h = h' ∨ h.Collide h' := by
  by_cases hh : h = h'
  · exact .inl hh
  · exact .inr ⟨fun heq => hh (dumps_inj.mp heq), hd⟩

/-! ## What is stored under a digest -/

/-- The identifiers of a record are cut from the digest of its key and its proposal. -/
def ToolExecutionResult.Identified (r : ToolExecutionResult) : Prop :=
  r.executionId = "execution-" ++
      slice 16 (Hashed.execution r.idempotencyKey r.proposalDigest).digest ∧
    r.ticketId = "LOCAL-" ++
      (slice 12 (Hashed.execution r.idempotencyKey r.proposalDigest).digest).toUpper

/-- The digest is that of the proposal of the workflow, and the key is made of the two. -/
def Workflow.Keys (w : Workflow) (proposalDigest idempotencyKey : String) : Prop :=
  ∃ proposal, w.actionProposal = some proposal ∧ proposalDigest = proposal.proposalDigest ∧
    idempotencyKey = ticketKey w.workflowId proposal.proposalDigest

/-- What the identifier of a decision is the digest of. -/
def ApprovalDecision.hashed (approval : ApprovalDecision) : Hashed :=
  .decision approval.decision approval.idempotencyKey approval.proposalDigest approval.reviewerId

/-- The identifiers in a workflow are digests of what it holds. -/
structure Identified (mode : EnforcementMode) (w : Workflow) : Prop where
  proposal : ∀ proposal, w.actionProposal = some proposal →
    proposal.arguments.workflowId = w.workflowId ∧
      proposal.proposalDigest = (Hashed.action proposal.arguments).digest ∧
      proposal.proposalId = "proposal-" ++ slice 16 proposal.proposalDigest
  approval : ∀ approval, w.approvalDecision = some approval →
    (∃ proposal, w.actionProposal = some proposal ∧
      approval.proposalDigest = proposal.proposalDigest) ∧
    approval.decisionId = approval.hashed.digest
  governance : ∀ decision ∈ w.governanceDecisions, ∃ context, context.subjectId = w.ownerId ∧
    decision = BaselinePolicyEngine.evaluate mode context ∧
    decision.decisionId = (Hashed.policy mode context).digest
  execution : ∀ result, w.executionResult = some result →
    result.Identified ∧ w.Keys result.proposalDigest result.idempotencyKey

section Stored
variable {env : Environment} {mode : EnforcementMode} {c : PoolConfig} {s : State} {w w' : Workflow}

theorem subjectId_of_contexts {intake context : ProcessingContext} {status : WorkflowState}
    (h : context ∈ contexts intake status) : context.subjectId = intake.subjectId := by
  have hmem := List.mem_of_mem_take h
  simp only [List.mem_cons, List.not_mem_nil, or_false] at hmem
  rcases hmem with rfl | rfl | rfl <;> rfl

/-- The record of a workflow is for its own proposal. -/
theorem Lifecycle.keys (hl : Lifecycle env w) {result : ToolExecutionResult}
    (hr : w.executionResult = some result) :
    w.Keys result.proposalDigest result.idempotencyKey := by
  have he := hl.evidence
  rw [Evidence] at he
  split at he
  case h_7 =>
    obtain ⟨-, -, proposal, result', hp, hr', hd, hk⟩ := he
    cases hr.symm.trans hr'
    exact ⟨proposal, hp, hd, hk⟩
  all_goals
    first
      | exact he.elim
      | exact absurd (hr.symm.trans (by simp only [he])) (Option.some_ne_none _)

/-- A workflow in its life is identified so; its record is the executor's. -/
theorem Lifecycle.identified (hp : env.policy = BaselinePolicyEngine.evaluate mode)
    (hl : Lifecycle env w)
    (hx : ∀ result, w.executionResult = some result → result.Identified) : Identified mode w where
  proposal proposal hproposal := by
    obtain ⟨result, now, -, hp'⟩ := hl.planned hproposal
    cases hproposal.symm.trans hp'
    exact ⟨rfl, rfl, rfl⟩
  approval approval happroval := by
    obtain ⟨d, consumed, proposal, reviewer, reason, key, now, hproposal, -, -, ha⟩ :=
      hl.decided happroval
    cases happroval.symm.trans ha
    exact ⟨⟨proposal, hproposal, rfl⟩, rfl⟩
  governance decision hd := by
    obtain ⟨intake, -, howner, hdecisions, -, -⟩ := hl.governed
    rw [hdecisions, List.mem_map] at hd
    obtain ⟨context, hcontext, rfl⟩ := hd
    rw [hp]
    exact ⟨context, (subjectId_of_contexts hcontext).trans howner, rfl, rfl⟩
  execution result hr := ⟨hx result hr, hl.keys hr⟩

/-- A new record is identified so, and an old one stays. -/
theorem exec_identified {tid : Nat} {op : Op}
    (h : ∀ key r, s.record key = some r → r.Identified) :
    ∀ key r, (exec env tid op s).2.record key = some r → r.Identified := by
  cases op with
  | execute task proposal now =>
    intro key r hr
    change (s.toolExecutor.execute task proposal now).2.executions.get? key = some r at hr
    unfold SimulatedTicketExecutor.execute at hr
    split at hr
    · split at hr <;> exact h key r hr
    · rw [Dict.get?_set] at hr
      split at hr
      · cases hr
        exact ⟨rfl, rfl⟩
      · exact h key r hr
  | _ => exact h

theorem Reachable.identified (hf : Function.Injective env.idFactory) (hc : Reachable env c) :
    ∀ key r, c.state.record key = some r → r.Identified := by
  refine hc.induct hf (P := fun c => ∀ key r, c.state.record key = some r → r.Identified)
    ?_ ?_ ?_ ?_
  · intro _ _ key r hr
    cases hr
  · exact fun _ _ _ ih => ih
  · exact fun _ _ _ _ _ _ ih _ _ => exec_identified ih
  · exact fun _ _ _ ih => ih

/-- Two workflows have two digests. -/
theorem Identified.proposalDigest_ne (h : Identified mode w) (h' : Identified mode w')
    (hne : w.workflowId ≠ w'.workflowId) {proposal proposal' : ToolActionProposal}
    (hp : w.actionProposal = some proposal) (hp' : w'.actionProposal = some proposal')
    (hd : proposal.proposalDigest = proposal'.proposalDigest) :
    (Hashed.action proposal.arguments).Collide (.action proposal'.arguments) := by
  obtain ⟨hid, hdigest, -⟩ := h.proposal _ hp
  obtain ⟨hid', hdigest', -⟩ := h'.proposal _ hp'
  rw [hdigest, hdigest'] at hd
  refine (Hashed.eq_or_collide hd).resolve_left fun heq => hne ?_
  rw [← hid, ← hid', Hashed.action.inj heq]

/-- **What the identifiers stand for.** In every configuration of every run they are digests of
what is stored, all of one injective family of texts. So no approval counts for a second
workflow, unless the texts of the two decisions collide, or those of the two actions. -/
theorem stored_identified (hf : Function.Injective env.idFactory)
    (hp : env.policy = BaselinePolicyEngine.evaluate mode) (hc : Reachable env c) :
    (∀ h h' : Hashed, h.json.dumps = h'.json.dumps ↔ h = h') ∧
    (∀ id w, c.state.stored id = some w → Identified mode w) ∧
    (∀ key r, c.state.record key = some r → r.Identified ∧ r.idempotencyKey = key ∧
      ∃ id w, c.state.stored id = some w ∧ w.Keys r.proposalDigest r.idempotencyKey) ∧
    (∀ taskId task, c.state.taskQueue.tasks.get? taskId = some task →
      task.taskId = taskId ∧ taskId = "task-" ++ slice 16 (Hashed.task task.workflowId).digest ∧
      ∃ w, c.state.stored task.workflowId = some w ∧
        w.Keys task.proposalDigest task.idempotencyKey) ∧
    ∀ id id' w w' approval approval', c.state.stored id = some w → c.state.stored id' = some w' →
      w.approvalDecision = some approval → w'.approvalDecision = some approval' →
      approval.decisionId = approval'.decisionId →
      id = id' ∨ approval.hashed.Collide approval'.hashed ∨
        ∃ proposal proposal', w.actionProposal = some proposal ∧
          w'.actionProposal = some proposal' ∧
          (Hashed.action proposal.arguments).Collide (.action proposal'.arguments) := by
  have hi : ∀ id w, c.state.stored id = some w → Identified mode w := by
    intro id w hw
    refine ((hc.consistent hf).stored hw).2.1.identified hp fun result hr => ?_
    exact hc.identified hf _ _ ((hc.consistent hf).ticketed hw hr)
  refine ⟨fun _ _ => Hashed.dumps_inj, hi, ?_, ?_, ?_⟩
  · intro key r hr
    obtain ⟨hkey, id, w, hw, proposal, _, hproposal, -, -, hd, hk, -⟩ :=
      (hc.consistent hf).recorded hr
    exact ⟨hc.identified hf key r hr, hkey, id, w, hw, proposal, hproposal, hd, hk⟩
  · intro taskId task ht
    obtain ⟨rfl, w, hw, htw⟩ := (hc.consistent hf).queued ht
    obtain ⟨proposal, _, hproposal, -⟩ := id htw
    refine ⟨rfl, ?_, w, hw, proposal, hproposal, htw.proposalDigest hproposal,
      htw.idempotencyKey hproposal⟩
    rw [htw.taskId, ← htw.workflowId]
    rfl
  · intro id id' w w' a a' hw hw' ha ha' hd
    obtain ⟨⟨proposal, hproposal, hbound⟩, hdecision⟩ := (hi id w hw).approval a ha
    obtain ⟨⟨proposal', hproposal', hbound'⟩, hdecision'⟩ := (hi id' w' hw').approval a' ha'
    rw [hdecision, hdecision'] at hd
    rcases Hashed.eq_or_collide hd with heq | hcol
    · obtain ⟨-, -, hdigest, -⟩ := Hashed.decision.inj heq
      by_cases hid : id = id'
      · exact .inl hid
      · refine .inr (.inr ⟨proposal, proposal', hproposal, hproposal',
          (hi id w hw).proposalDigest_ne (hi id' w' hw') ?_ hproposal hproposal' ?_⟩)
        · rwa [((hc.consistent hf).stored hw).1, ((hc.consistent hf).stored hw').1]
        · rw [← hbound, ← hbound', hdigest]
    · exact .inr (.inl hcol)

/-- The completed request of the examples, under the baseline policy. -/
theorem stored_identified_completedRun :
    ∃ w, ((system { sampleEnv with policy := BaselinePolicyEngine.evaluate .enforce }).play
        (initial 0 0) completedRun).state.stored "w" = some w ∧ w.status = .completed ∧
      Identified .enforce w := by
  have hs : (((system { sampleEnv with policy := BaselinePolicyEngine.evaluate .enforce }).play
      (initial 0 0) completedRun).state.stored "w").map (·.status) = some .completed := by
    decide +kernel
  obtain ⟨w, hw, hs⟩ := Option.map_eq_some_iff.mp hs
  obtain ⟨-, h, -⟩ := @stored_identified
    { sampleEnv with policy := BaselinePolicyEngine.evaluate .enforce } .enforce _
    sampleId_injective rfl (reachable_play _ 0 0 completedRun)
  exact ⟨w, hw, hs, h "w" w hw⟩

end Stored

end AgenticDelivery.Api
