import Mathlib.Data.Finset.Basic

/-! # Governance contracts

The records that travel with every workflow, and the two ports that fill them:
the data classifier and the policy decision point. -/
namespace AgenticDelivery.Governance

inductive DataCategory
  | generalContent | contactInformation | healthInformation | financialInformation
  | paymentCardData | credentials | biometricInformation | childrensData | educationRecords
  | governmentData
  deriving DecidableEq, Repr

inductive DataClassification
  | internal | confidential | restrictedPersonal | regulatedHighImpact
  deriving DecidableEq, Repr

inductive ProcessingPurpose
  | deliveryPlanning
  deriving DecidableEq, Repr

inductive ProcessingOperation
  | workflowIntake | agentPlanning | externalModelInference | knowledgeRetrieval | toolExecution
  deriving DecidableEq, Repr

inductive EnforcementMode
  | observe | warn | enforce
  deriving DecidableEq, Repr

inductive PolicyOutcome
  | permit | permitWithControls | deny
  deriving DecidableEq, Repr

def PolicyOutcome.value : PolicyOutcome → String
  | .permit => "permit"
  | .permitWithControls => "permit_with_controls"
  | .deny => "deny"

inductive Obligation
  | auditDecision | purposeLimitation | dataMinimization | redactBeforeExternalProcessing
  | localProcessingOnly | noProviderTraining | humanApprovalForSideEffects | enhancedAccessLogging
  deriving DecidableEq, Repr

structure DataProfile where
  classification : DataClassification
  categories : List DataCategory
  detectionBasis : List String
  deriving DecidableEq, Repr

structure ProcessingContext where
  subjectId : String
  tenantId : String := "local-reference"
  purpose : ProcessingPurpose
  operation : ProcessingOperation
  provider : String
  jurisdiction : String := "US"
  dataProfile : DataProfile
  overlayIds : List String := ["common-us-baseline"]
  deriving DecidableEq, Repr

structure PolicyDecision where
  decisionId : String
  policyVersion : String
  outcome : PolicyOutcome
  executionAllowed : Bool
  enforcementMode : EnforcementMode
  classification : DataClassification
  obligations : List Obligation
  reasons : List String
  retentionPolicy : String
  overlayIds : List String
  deriving DecidableEq, Repr

/-- `DataClassifier`, as a pure function. -/
abbrev DataClassifier := String → Option (Finset DataCategory) → DataProfile

/-- `PolicyDecisionPoint`, as a pure function. -/
abbrev PolicyDecisionPoint := ProcessingContext → PolicyDecision

end AgenticDelivery.Governance
