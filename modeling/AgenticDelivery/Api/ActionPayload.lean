import AgenticDelivery.Api.Execution
import AgenticDelivery.Data.CanonicalJson

/-! # What a proposal's digest and a task's key determine

The digest of a proposal is taken of a text that determines the action, and the execution
key of a task determines its workflow and its digest. -/
namespace AgenticDelivery.Api
open AgenticDelivery.Data AgenticDelivery.Runtime

/-! ## The text that is hashed -/

/-- What `create_tool_proposal` hashes. -/
def payload (workflowId : String) (planningResult : PlanningResult) : String :=
  (actionContract (ticketArguments workflowId planningResult)).dumps

theorem proposalDigest_createToolProposal (schema : Json) (workflowId : String)
    (planningResult : PlanningResult) (now : Datetime) :
    (createToolProposal schema workflowId planningResult now).proposalDigest =
      Sha256.hexdigest (encodeUtf8 (payload workflowId planningResult)) := rfl

/-- `json.dumps` puts the arguments in the order of their keys. -/
theorem sortKeys_actionContract (arguments : TicketArguments) :
    (actionContract arguments).sortKeys =
      .obj [("action", .str "create_delivery_ticket"),
        ("arguments", .obj [("complexity", .str arguments.complexity),
          ("deliverySteps", .arr (arguments.deliverySteps.map .str)),
          ("title", .str arguments.title), ("workflowId", .str arguments.workflowId)])] := by
  have hitems (steps : List String) : Json.sortItems (steps.map .str) = steps.map .str := by
    induction steps with
    | nil => rfl
    | cons step steps ih => rw [List.map_cons, Json.sortItems, Json.sortKeys, ih]
  simp only [actionContract, TicketArguments.modelDump, Json.sortKeys, Json.sortFields, hitems]
  -- the keys are literals, so the order is computed
  simp [List.insertionSort, List.orderedInsert]

/-- The contract of an action determines its arguments. -/
theorem dumps_actionContract_inj {arguments arguments' : TicketArguments} :
    (actionContract arguments).dumps = (actionContract arguments').dumps ↔
      arguments = arguments' := by
  rw [Json.dumps_inj, sortKeys_actionContract, sortKeys_actionContract]
  constructor
  · intro h
    have hsteps : Function.Injective Json.str := fun _ _ heq => Json.str.inj heq
    simp only [Json.obj.injEq, Json.arr.injEq, Json.str.injEq, List.cons.injEq, Prod.mk.injEq,
      true_and, and_true, (List.map_injective_iff.mpr hsteps).eq_iff] at h
    obtain ⟨hcomplexity, hsteps, htitle, hworkflow⟩ := h
    cases arguments
    cases arguments'
    rw [TicketArguments.mk.injEq]
    exact ⟨hworkflow, htitle, hcomplexity, hsteps⟩
  · intro h
    rw [h]

/-- The arguments of a ticket are the four parts of the action. -/
theorem ticketArguments_inj {w w' : String} {p p' : PlanningResult} :
    ticketArguments w p = ticketArguments w' p' ↔
      w = w' ∧ p.proposal.summary = p'.proposal.summary ∧
        p.proposal.complexity = p'.proposal.complexity ∧
        p.proposal.deliverySteps = p'.proposal.deliverySteps := by
  simp only [ticketArguments, TicketArguments.mk.injEq, Complexity.value_injective.eq_iff]

/-! ## The execution key -/

/-- A digest in sixty-four hexadecimal digits. -/
structure HexDigest where
  value : String
  length_eq : value.toList.length = 64
  digits : ∀ c ∈ value.toList, c ∈ "0123456789abcdefABCDEF".toList

theorem HexDigest.no_colon (digest : HexDigest) : ':' ∉ digest.value.toList := by
  intro h
  exact absurd (digest.digits _ h) (by decide)

theorem hexDigits_subset : Sha256.hexDigits ⊆ "0123456789abcdefABCDEF".toList := by decide

/-- What `canonical_digest` returns is one. -/
def hexDigest (value : Json) : HexDigest where
  value := canonicalDigest value
  length_eq := Sha256.hexdigest_length _
  digits c hc := hexDigits_subset (Sha256.hexdigest_subset _ c hc)

theorem proposalDigest_eq_hexDigest (schema : Json) (workflowId : String)
    (planningResult : PlanningResult) (now : Datetime) :
    (createToolProposal schema workflowId planningResult now).proposalDigest =
      (hexDigest (actionContract (ticketArguments workflowId planningResult))).value := rfl

theorem idempotencyKey_inj {w w' : String} {d d' : HexDigest} :
    (createExecutionTask w d.value).idempotencyKey =
        (createExecutionTask w' d'.value).idempotencyKey ↔ w = w' ∧ d.value = d'.value := by
  constructor
  · intro h
    exact ticketKey_inj d.no_colon d'.no_colon h
  · rintro ⟨rfl, hd⟩
    rw [hd]

/-- **Distinct actions are hashed from distinct texts, and no two workflows share an
execution key.** -/
theorem payload_and_idempotencyKey_inj :
    (∀ (w₁ w₂ : String) (p₁ p₂ : PlanningResult), payload w₁ p₁ = payload w₂ p₂ ↔
      w₁ = w₂ ∧ p₁.proposal.summary = p₂.proposal.summary ∧
        p₁.proposal.complexity = p₂.proposal.complexity ∧
        p₁.proposal.deliverySteps = p₂.proposal.deliverySteps) ∧
    ∀ (w₁ w₂ : String) (d₁ d₂ : HexDigest),
      (createExecutionTask w₁ d₁.value).idempotencyKey =
        (createExecutionTask w₂ d₂.value).idempotencyKey ↔ w₁ = w₂ ∧ d₁.value = d₂.value := by
  constructor
  · intro w₁ w₂ p₁ p₂
    exact dumps_actionContract_inj.trans ticketArguments_inj
  · intro w₁ w₂ d₁ d₂
    exact idempotencyKey_inj

end AgenticDelivery.Api
