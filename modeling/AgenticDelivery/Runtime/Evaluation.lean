import AgenticDelivery.Data.Dict
import Mathlib.Algebra.Field.Rat
import Mathlib.Algebra.Order.Field.Basic
import Mathlib.Algebra.Order.Ring.Rat
import AgenticDelivery.Runtime.Graph

/-! # The default evaluation gate

`DeterministicEvaluationGate`: five checks of equal weight, all of which must
pass. -/
namespace AgenticDelivery.Runtime
open AgenticDelivery.Data

namespace DeterministicEvaluationGate

def gateVersion : String := "local-evaluation-gate-v1"

def threshold : ℚ := 1

/-- `{item.document.document_id: item for item in passages}` -/
def passageById (passages : List RetrievedPassage) : Dict String RetrievedPassage :=
  passages.foldl (fun byId item => byId.set item.document.documentId item) .empty

/-- The citation names a passage, with the hash of its content. -/
def intact (byId : Dict String RetrievedPassage) (citation : Citation) : Bool :=
  match byId.get? citation.documentId with
  | some passage => citation.excerptHash == passage.contentHash
  | none => false

def checks (proposal : ImplementationProposal) (citations : List Citation)
    (passages : List RetrievedPassage) (outputPatterns : List String) : List EvaluationCheck :=
  [{ name := "structured_output"
     passed := proposal.summary ≠ "" ∧ proposal.deliverySteps ≠ [] },
    { name := "citation_present", passed := citations ≠ [] },
    { name := "citation_integrity"
      passed := citations ≠ [] ∧ citations.all (intact (passageById passages)) },
    { name := "grounded_guidance"
      passed := passages.any fun passage => passage.document.content ∈ proposal.deliverySteps },
    { name := "output_safety", passed := outputPatterns = [] }]

def evaluate (proposal : ImplementationProposal) (citations : List Citation)
    (passages : List RetrievedPassage) (outputPatterns : List String) : EvaluationGateResult :=
  let checks := checks proposal citations passages outputPatterns
  let score : ℚ := checks.countP (·.passed) / checks.length
  { gateVersion
    passed := threshold ≤ score
    score
    threshold
    checks }

variable {proposal : ImplementationProposal} {citations : List Citation}
  {passages : List RetrievedPassage} {outputPatterns : List String}

/-- What the gate lets through. -/
structure Passes (proposal : ImplementationProposal) (citations : List Citation)
    (passages : List RetrievedPassage) (outputPatterns : List String) : Prop where
  summary : proposal.summary ≠ ""
  deliverySteps : proposal.deliverySteps ≠ []
  cited : citations ≠ []
  integrity : ∀ citation ∈ citations, intact (passageById passages) citation = true
  grounded : ∃ passage ∈ passages, passage.document.content ∈ proposal.deliverySteps
  safe : outputPatterns = []

/-- The score reaches the threshold when all of the equal weights are in it. -/
theorem passed_iff_checks : (evaluate proposal citations passages outputPatterns).passed = true ↔
    ∀ check ∈ checks proposal citations passages outputPatterns, check.passed = true := by
  have hcount : (checks proposal citations passages outputPatterns).countP (·.passed) =
      (checks proposal citations passages outputPatterns).length ↔
      ∀ check ∈ checks proposal citations passages outputPatterns, check.passed = true :=
    List.countP_eq_length
  rw [← hcount, evaluate, decide_eq_true_eq]
  unfold threshold
  have hlen : (checks proposal citations passages outputPatterns).length = 5 := rfl
  have hle := List.countP_le_length (l := checks proposal citations passages outputPatterns)
    (p := (·.passed))
  rw [hlen] at hle ⊢
  have hscore (n : Nat) : (1 : ℚ) ≤ (n : ℚ) / ((5 : Nat) : ℚ) ↔ 5 ≤ n := by
    rw [one_le_div (Nat.cast_pos.mpr (by decide)), Nat.cast_le]
  rw [hscore]
  omega

/-- **The score reaches the threshold exactly when every check passes.** -/
theorem passed_iff : (evaluate proposal citations passages outputPatterns).passed = true ↔
    Passes proposal citations passages outputPatterns := by
  rw [passed_iff_checks]
  simp only [checks, List.forall_mem_cons, List.not_mem_nil, false_implies, implies_true, and_true,
    decide_eq_true_eq, List.any_eq_true, List.all_eq_true]
  constructor
  · rintro ⟨⟨hs, hd⟩, hc, ⟨-, hi⟩, hg, ho⟩
    exact ⟨hs, hd, hc, hi, hg, ho⟩
  · rintro ⟨hs, hd, hc, hi, hg, ho⟩
    exact ⟨⟨hs, hd⟩, hc, ⟨hc, hi⟩, hg, ho⟩

/-- The gate looks a passage up by its document's identifier and finds one of it. -/
theorem passageById_get? {passage : RetrievedPassage} (hp : passage ∈ passages) :
    ∃ item ∈ passages, item.document.documentId = passage.document.documentId ∧
      (passageById passages).get? passage.document.documentId = some item := by
  have hget := Dict.get?_foldl_set (fun item : RetrievedPassage => item.document.documentId)
    passages .empty passage.document.documentId
  rw [Dict.get?_empty, Option.or_none] at hget
  have hne : (passages.filter fun item =>
      item.document.documentId = passage.document.documentId) ≠ [] :=
    List.ne_nil_of_mem (List.mem_filter.mpr ⟨hp, decide_eq_true rfl⟩)
  obtain ⟨item, hlast⟩ := Option.isSome_iff_exists.mp (List.getLast?_isSome.mpr hne)
  obtain ⟨hi, hid⟩ := List.mem_filter.mp (List.mem_of_getLast? hlast)
  exact ⟨item, hi, of_decide_eq_true hid, hget.trans hlast⟩

/-- The sections and versions of one document have one content, as far as the hash
tells. -/
def OneContent (passages : List RetrievedPassage) : Prop :=
  ∀ p ∈ passages, ∀ q ∈ passages, p.document.documentId = q.document.documentId →
    p.contentHash = q.contentHash

instance (passages : List RetrievedPassage) : Decidable (OneContent passages) :=
  inferInstanceAs (Decidable (∀ p ∈ _, ∀ q ∈ _, _ → _))

theorem oneContent_of_nodup (h : (passages.map fun item => item.document.documentId).Nodup) :
    OneContent passages := by
  intro p hp q hq hid
  rw [List.inj_on_of_nodup_map h hp hq hid]

end DeterministicEvaluationGate

end AgenticDelivery.Runtime
