import AgenticDelivery.Data.Pattern
import AgenticDelivery.Governance.Models
import Mathlib.Data.List.Sort
import Mathlib.Data.String.Basic

/-! # The local classifier

`DeterministicDataClassifier`: the declared categories, and those whose phrases the
text holds. -/
namespace AgenticDelivery.Governance
open AgenticDelivery.Data

def DataCategory.value : DataCategory → String
  | .generalContent => "general_content"
  | .contactInformation => "contact_information"
  | .healthInformation => "health_information"
  | .financialInformation => "financial_information"
  | .paymentCardData => "payment_card_data"
  | .credentials => "credentials"
  | .biometricInformation => "biometric_information"
  | .childrensData => "childrens_data"
  | .educationRecords => "education_records"
  | .governmentData => "government_data"

/-- The categories in the order of their values. -/
def categoriesByValue : List DataCategory :=
  [.biometricInformation, .childrensData, .contactInformation, .credentials, .educationRecords,
    .financialInformation, .generalContent, .governmentData, .healthInformation, .paymentCardData]

theorem mem_categoriesByValue (category : DataCategory) : category ∈ categoriesByValue := by
  cases category <;> decide

example : (categoriesByValue.map DataCategory.value).Pairwise (· < ·) := by decide

/-- `sorted(categories, key=str)` -/
def sortedCategories (categories : Finset DataCategory) : List DataCategory :=
  categoriesByValue.filter (· ∈ categories)

theorem mem_sortedCategories {categories : Finset DataCategory} {category : DataCategory} :
    category ∈ sortedCategories categories ↔ category ∈ categories := by
  rw [sortedCategories, List.mem_filter, decide_eq_true_eq]
  exact and_iff_right (mem_categoriesByValue category)

def credentialPhrases : List String :=
  ["password", "api key", "access token", "private key", "login credential"]

def paymentCardPhrases : List String :=
  ["credit card", "card number", "cardholder", "cvv", "payment card"]

/-- `\b(a|b|…)\b` -/
def wholePhrases (texts : List String) : Regex Char := .whole (phrases texts)

/-- `PATTERNS` -/
def classifierPatterns : List (DataCategory × Regex Char) :=
  [(.healthInformation, .whole (.oneOf [phrase "patient", phrase "diagnosis",
      .seq (phrase "symptom") (.upTo 1 (ignoreCase 's')), phrase "medical record",
      phrase "health information", phrase "phi"])),
    (.financialInformation, wholePhrases ["bank account", "credit report", "financial account"]),
    (.paymentCardData, wholePhrases paymentCardPhrases),
    (.credentials, wholePhrases credentialPhrases),
    (.biometricInformation,
      wholePhrases ["fingerprint", "face template", "iris scan", "voiceprint", "biometric"]),
    (.childrensData, wholePhrases ["child", "children", "minor", "under 13"]),
    (.educationRecords, wholePhrases ["student record", "education record", "school transcript"]),
    (.governmentData, wholePhrases ["controlled unclassified", "government restricted", "cui"]),
    (.contactInformation,
      wholePhrases ["email address", "phone number", "home address", "contact information"])]

/-- `CLASSIFICATION_BY_CATEGORY` -/
def classificationByCategory : DataCategory → DataClassification
  | .generalContent => .internal
  | .contactInformation => .confidential
  | .healthInformation | .financialInformation | .credentials | .biometricInformation
  | .childrensData | .educationRecords => .restrictedPersonal
  | .paymentCardData | .governmentData => .regulatedHighImpact

/-- `CLASSIFICATION_ORDER` -/
def classificationOrder : DataClassification → Nat
  | .internal => 0
  | .confidential => 1
  | .restrictedPersonal => 2
  | .regulatedHighImpact => 3

/-- `max(classifications, key=CLASSIFICATION_ORDER.__getitem__)`; no classification is
below `internal`. -/
def highest (classifications : List DataClassification) : DataClassification :=
  classifications.foldl
    (fun best c => if classificationOrder best < classificationOrder c then c else best) .internal

namespace DeterministicDataClassifier
variable (u : Unicode)

/-- The categories whose pattern the text matches, in the order of `PATTERNS`. -/
def detected (text : String) : List DataCategory :=
  (classifierPatterns.filter fun pattern => u.search pattern.2 text).map Prod.fst

def classify (text : String) (declaredCategories : Option (Finset DataCategory)) : DataProfile :=
  let declared := declaredCategories.getD ∅
  let found := declared ∪ (detected u text).toFinset
  let basis := (sortedCategories declared).map (fun category => "declared:" ++ category.value) ++
    (detected u text).map fun category => "detected:" ++ category.value
  let categories := if found = ∅ then {.generalContent} else found
  let basis := if found = ∅ then basis ++ ["default:general_content"] else basis
  { classification := highest ((sortedCategories categories).map classificationByCategory)
    categories := sortedCategories categories
    detectionBasis := basis.dedup.insertionSort (· ≤ ·) }

variable {u}

/-- What is detected is among the categories of the profile. -/
theorem mem_categories_of_detected {text : String}
    {declaredCategories : Option (Finset DataCategory)} {category : DataCategory}
    (h : category ∈ detected u text) :
    category ∈ (classify u text declaredCategories).categories := by
  have hfound : category ∈ declaredCategories.getD ∅ ∪ (detected u text).toFinset :=
    Finset.mem_union_right _ (List.mem_toFinset.mpr h)
  have hne : declaredCategories.getD ∅ ∪ (detected u text).toFinset ≠ ∅ :=
    Finset.ne_empty_of_mem hfound
  rw [classify]
  simp only [if_neg hne]
  exact mem_sortedCategories.mpr hfound

theorem mem_detected_iff {text : String} {category : DataCategory} :
    category ∈ detected u text ↔
      ∃ pattern, (category, pattern) ∈ classifierPatterns ∧ u.search pattern text = true := by
  rw [detected, List.mem_map]
  constructor
  · rintro ⟨⟨_, pattern⟩, hm, rfl⟩
    obtain ⟨hm, hs⟩ := List.mem_filter.mp hm
    exact ⟨pattern, hm, hs⟩
  · rintro ⟨pattern, hm, hs⟩
    exact ⟨(category, pattern), List.mem_filter.mpr ⟨hm, hs⟩, rfl⟩

end DeterministicDataClassifier

end AgenticDelivery.Governance
