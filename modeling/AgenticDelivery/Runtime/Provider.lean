import AgenticDelivery.Runtime.Guardrails

/-! # The default provider

`DeterministicProposalProvider` writes the request and the first passage into a
fixed text. Around them stands enough of it that no guardrail pattern can match
across. -/
namespace AgenticDelivery.Runtime
open AgenticDelivery.Data

namespace DeterministicProposalProvider

def categoryStep : Category → String
  | .general => "Define the bounded delivery outcome and acceptance criteria."
  | .integration => "Define the external contract behind a replaceable adapter."
  | .security => "Threat-model the affected trust boundaries and controls."
  | .data => "Define the data contract, consistency rules, and migration path."

/-- What stands before the request in the summary. -/
def opening (complexity : Complexity) (category : Category) : String :=
  "Prepare a " ++ complexity.value ++ "-complexity " ++ category.value ++ " delivery for: "

/-- The second step. -/
def guidance (passages : List RetrievedPassage) : String :=
  match passages with
  | [] => "Stop when no grounded guidance exists."
  | passage :: _ => passage.document.content

def laterSteps : List String :=
  ["Implement the smallest complete vertical slice.",
    "Validate contracts, failure modes, security, and observability.",
    "Package reproducible local deployment evidence."]

def standingRisks : List String :=
  ["Requirements may change after stakeholder review.",
    "External adapters remain disabled and require later contract verification."]

def generate (planningInput : PlanningInput) (classification : Classification)
    (passages : List RetrievedPassage) : ImplementationProposal where
  summary := opening classification.complexity classification.category ++ planningInput.request
  complexity := classification.complexity
  deliverySteps := categoryStep classification.category :: guidance passages :: laterSteps
  risks := standingRisks

variable {u : Unicode}

/-- The text the output check reads. -/
def outputText (proposal : ImplementationProposal) : String :=
  " ".intercalate (proposal.summary :: proposal.deliverySteps ++ proposal.risks)

theorem outputText_generate (planningInput : PlanningInput) (classification : Classification)
    (passages : List RetrievedPassage) :
    outputText (generate planningInput classification passages) =
      opening classification.complexity classification.category ++
        (planningInput.request ++ (" " ++ categoryStep classification.category ++ " ") ++
          (guidance passages ++ (" " ++ " ".intercalate (laterSteps ++ standingRisks)) ++ "")) := by
  have hparts : outputText (generate planningInput classification passages) =
      " ".intercalate ((opening classification.complexity classification.category ++
        planningInput.request) :: categoryStep classification.category :: guidance passages ::
          (laterSteps ++ standingRisks)) := rfl
  rw [hparts, String.intercalate_cons_cons, String.intercalate_cons_cons,
    String.intercalate_cons_of_ne_nil (by decide)]
  simp only [String.append_assoc, String.append_empty]

/-! ## The fixed texts as walls -/

theorem toList_opening (complexity : Complexity) (category : Category) :
    (opening complexity category).toList = "Prepare a ".toList ++ complexity.value.toList ++
      "-complexity ".toList ++ category.value.toList ++ " delivery for: ".toList := by
  simp only [opening, String.toList_append]

theorem generate_summary_ne (planningInput : PlanningInput) (classification : Classification)
    (passages : List RetrievedPassage) :
    (generate planningInput classification passages).summary ≠ "" := by
  intro h
  have hnil := congrArg String.toList h
  simp only [generate, String.toList_append, toList_opening, String.toList_empty,
    List.append_eq_nil_iff] at hnil
  exact absurd hnil.1.1.1.1.1 (by decide)

theorem isWall_opening (complexity : Complexity) (category : Category) :
    isWall (opening complexity category).toList = true := by
  have h : ∀ complexity ∈ [Complexity.low, .medium, .high],
      ∀ category ∈ [Category.general, .integration, .security, .data],
        isWall ("Prepare a ".toList ++ complexity.value.toList ++ "-complexity ".toList ++
          category.value.toList ++ " delivery for: ".toList) = true := by decide
  rw [toList_opening]
  exact h complexity (by cases complexity <;> decide) category (by cases category <;> decide)

theorem opening_getLast? (complexity : Complexity) (category : Category) :
    (opening complexity category).toList.getLast?.any isOutside = true := by
  have h : " delivery for: ".toList.getLast? = some ' ' := by decide
  rw [toList_opening, List.getLast?_append, h, Option.some_or]
  decide

theorem toList_middle (category : Category) : (" " ++ categoryStep category ++ " ").toList =
    ' ' :: (categoryStep category).toList ++ [' '] := by
  rw [String.toList_append, String.toList_append]
  rfl

theorem isWall_middle (category : Category) :
    isWall (" " ++ categoryStep category ++ " ").toList = true := by
  have h : ∀ category ∈ [Category.general, .integration, .security, .data],
      isWall (' ' :: (categoryStep category).toList ++ [' ']) = true := by decide
  rw [toList_middle]
  exact h category (by cases category <;> decide)

theorem toList_closing (text : String) : (" " ++ text).toList = ' ' :: text.toList := by
  rw [String.toList_append]
  rfl

theorem isWall_closing :
    isWall (" " ++ " ".intercalate (laterSteps ++ standingRisks)).toList = true := by
  rw [toList_closing, String.toList_intercalate]
  decide +kernel

theorem closing_getLast? :
    (" " ++ " ".intercalate (laterSteps ++ standingRisks)).toList.getLast?.any isOutside =
      true := by
  rw [toList_closing, String.toList_intercalate]
  decide +kernel

/-- **The proposal is safe exactly when the request and the guidance are.** -/
theorem safe_generate_iff (planningInput : PlanningInput) (classification : Classification)
    (passages : List RetrievedPassage) :
    Safe u (outputText (generate planningInput classification passages)) ↔
      Safe u planningInput.request ∧ Safe u (guidance passages) := by
  rw [outputText_generate, safe_behind_iff (isWall_opening _ _) (opening_getLast? _ _),
    safe_wall_iff (isWall_middle _) (by rw [toList_middle]; rfl)
      (by rw [toList_middle, List.getLast?_concat]; rfl),
    safe_wall_iff isWall_closing (by rw [toList_closing]; rfl) closing_getLast?]
  simp only [safe_empty, and_true]

end DeterministicProposalProvider

end AgenticDelivery.Runtime
