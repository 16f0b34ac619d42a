import AgenticDelivery.Data.Json
import AgenticDelivery.Governance.Classifier

/-! # The baseline policy

`BaselinePolicyEngine`: what it denies, what it asks for, and when a denial stops
the processing. -/
namespace AgenticDelivery.Governance
open AgenticDelivery.Data

def DataClassification.value : DataClassification → String
  | .internal => "internal"
  | .confidential => "confidential"
  | .restrictedPersonal => "restricted_personal_data"
  | .regulatedHighImpact => "regulated_high_impact_data"

def ProcessingPurpose.value : ProcessingPurpose → String
  | .deliveryPlanning => "delivery_planning"

def ProcessingOperation.value : ProcessingOperation → String
  | .workflowIntake => "workflow_intake"
  | .agentPlanning => "agent_planning"
  | .externalModelInference => "external_model_inference"
  | .knowledgeRetrieval => "knowledge_retrieval"
  | .toolExecution => "tool_execution"

def EnforcementMode.value : EnforcementMode → String
  | .observe => "observe"
  | .warn => "warn"
  | .enforce => "enforce"

/-- `model_dump(mode="json", by_alias=True)` -/
def DataProfile.modelDump (profile : DataProfile) : Json :=
  .obj [("classification", .str profile.classification.value),
    ("categories", .arr (profile.categories.map fun category => .str category.value)),
    ("detectionBasis", .arr (profile.detectionBasis.map .str))]

def ProcessingContext.modelDump (context : ProcessingContext) : Json :=
  .obj [("subjectId", .str context.subjectId), ("tenantId", .str context.tenantId),
    ("purpose", .str context.purpose.value), ("operation", .str context.operation.value),
    ("provider", .str context.provider), ("jurisdiction", .str context.jurisdiction),
    ("dataProfile", context.dataProfile.modelDump),
    ("overlayIds", .arr (context.overlayIds.map .str))]

def policyVersion : String := "common-us-v1"

def localProviders : List String := ["local-api", "deterministic-local"]

/-- `PROHIBITED_INTAKE` -/
def prohibitedIntake : List DataCategory := [.credentials, .paymentCardData]

/-- The obligations, in the order of their values. -/
def baseObligations : List Obligation := [.auditDecision, .purposeLimitation]

def sensitiveObligations : List Obligation :=
  [.auditDecision, .dataMinimization, .enhancedAccessLogging, .humanApprovalForSideEffects,
    .localProcessingOnly, .noProviderTraining, .purposeLimitation, .redactBeforeExternalProcessing]

namespace BaselinePolicyEngine

def isSensitive (context : ProcessingContext) : Bool :=
  context.dataProfile.classification = .restrictedPersonal ∨
    context.dataProfile.classification = .regulatedHighImpact

/-- Raw credentials or payment-card data at the intake. -/
def prohibited (context : ProcessingContext) : Bool :=
  context.operation = .workflowIntake ∧
    ∃ category ∈ prohibitedIntake, category ∈ context.dataProfile.categories

/-- Restricted data for a provider that is not local. -/
def unapproved (context : ProcessingContext) : Bool :=
  isSensitive context = true ∧ context.provider ∉ localProviders

def evaluate (mode : EnforcementMode) (context : ProcessingContext) : PolicyDecision :=
  let sensitive := isSensitive context
  let denied := prohibited context || unapproved context
  let obligations := if sensitive then sensitiveObligations else baseObligations
  let outcome : PolicyOutcome :=
    if denied then .deny else if 2 < obligations.length then .permitWithControls else .permit
  let reasons :=
    (if prohibited context then
      ["Raw credentials and payment-card data are prohibited at workflow intake."] else []) ++
    (if unapproved context then
      ["Restricted data cannot be sent to an unapproved provider."] else []) ++
    (if denied then []
      else if 2 < obligations.length then
        ["Sensitive data requires the common baseline control set."]
      else ["The common baseline permits this local processing operation."])
  { decisionId := canonicalDigest (.obj [("context", context.modelDump), ("mode", .str mode.value),
      ("outcome", .str outcome.value), ("policy", .str policyVersion)])
    policyVersion
    outcome
    executionAllowed := !denied || mode ≠ .enforce
    enforcementMode := mode
    classification := context.dataProfile.classification
    obligations
    reasons
    retentionPolicy := if sensitive then "restricted-30-days" else "standard-90-days"
    overlayIds := context.overlayIds }

/-- **In enforce mode nothing prohibited passes the intake.** -/
theorem not_prohibited {context : ProcessingContext}
    (h : (evaluate .enforce context).executionAllowed = true)
    (ho : context.operation = .workflowIntake) :
    ∀ category ∈ prohibitedIntake, category ∉ context.dataProfile.categories := by
  intro category hp hc
  have hdenied : prohibited context = true := decide_eq_true ⟨ho, category, hp, hc⟩
  simp [evaluate, hdenied] at h

/-- Every decision gives a reason, so a denial can be explained. -/
theorem reasons_ne_nil (mode : EnforcementMode) (context : ProcessingContext) :
    (evaluate mode context).reasons ≠ [] := by
  cases hp : prohibited context with
  | true => simp [evaluate, hp]
  | false =>
    cases hu : unapproved context with
    | true => simp [evaluate, hp, hu]
    | false =>
      simp only [evaluate, hp, hu, Bool.or_false, if_neg Bool.false_ne_true, List.nil_append]
      split <;> exact List.cons_ne_nil _ _

end BaselinePolicyEngine

end AgenticDelivery.Governance
