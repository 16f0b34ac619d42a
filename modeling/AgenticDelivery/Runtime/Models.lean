import Mathlib.Data.Rat.Defs

/-! # Contracts of the agent runtime

Scores and costs, floating-point numbers in the source, are rationals here. -/
namespace AgenticDelivery.Runtime

inductive Complexity
  | low | medium | high
  deriving DecidableEq, Repr

def Complexity.value : Complexity → String
  | .low => "low"
  | .medium => "medium"
  | .high => "high"

theorem Complexity.value_injective : Function.Injective Complexity.value := by
  intro c c' h
  cases c <;> cases c' <;> first | rfl | exact absurd h (by decide)

inductive Category
  | general | integration | security | data
  deriving DecidableEq, Repr

def Category.value : Category → String
  | .general => "general"
  | .integration => "integration"
  | .security => "security"
  | .data => "data"

inductive CompletedState
  | validated | guarded | classified | contextBuilt | knowledgeRetrieved | planned | evaluated
  deriving DecidableEq, Repr

structure PlanningInput where
  workflowId : String
  ownerId : String
  request : String
  requestedLocale : String
  correlationId : String
  deriving DecidableEq, Repr

structure Classification where
  category : Category
  complexity : Complexity
  reason : String
  deriving DecidableEq, Repr

structure ModelPolicy where
  provider : String := "deterministic-local"
  model : String := "rules-v1"
  reason : String
  deriving DecidableEq, Repr

structure Citation where
  documentId : String
  title : String
  section_ : String
  version : String
  excerptHash : String
  relevanceScore : ℚ
  deriving DecidableEq, Repr

structure RetrievalEvidence where
  corpusVersion : String
  selectedDocumentIds : List String
  quarantinedDocumentIds : List String
  deriving DecidableEq, Repr

inductive RetrievalOutcome
  | passed | filtered
  deriving DecidableEq, Repr

structure GuardrailReport where
  policyVersion : String
  inputOutcome : String := "passed"
  retrievalOutcome : RetrievalOutcome
  outputOutcome : String := "passed"
  deriving DecidableEq, Repr

structure EvaluationCheck where
  name : String
  passed : Bool
  deriving DecidableEq, Repr

structure EvaluationGateResult where
  gateVersion : String
  passed : Bool
  score : ℚ
  threshold : ℚ
  checks : List EvaluationCheck
  deriving DecidableEq, Repr

structure ImplementationProposal where
  summary : String
  complexity : Complexity
  deliverySteps : List String
  risks : List String
  deriving DecidableEq, Repr

structure ExecutionMetrics where
  latencyMs : Nat := 0
  estimatedInputTokens : Nat
  estimatedOutputTokens : Nat
  estimatedCostUsd : ℚ := 0
  deriving DecidableEq, Repr

structure PlanningResult where
  classification : Classification
  modelPolicy : ModelPolicy
  proposal : ImplementationProposal
  citations : List Citation
  retrieval : RetrievalEvidence
  guardrails : GuardrailReport
  evaluation : EvaluationGateResult
  metrics : ExecutionMetrics
  completedStates : List CompletedState
  deriving DecidableEq, Repr

/-- The exceptions a runtime raises: the two of its own, and any other. -/
inductive RuntimeError
  | promptInjectionBlocked (message : String)
  | evaluationGateBlocked (result : EvaluationGateResult)
  | other (message : String)
  deriving DecidableEq, Repr

/-- `str(error)`. -/
def RuntimeError.message : RuntimeError → String
  | .promptInjectionBlocked message => message
  | .evaluationGateBlocked _ => "The deterministic evaluation gate did not pass."
  | .other message => message

end AgenticDelivery.Runtime
