import AgenticDelivery.Data.Pattern
import AgenticDelivery.Runtime.Graph

/-! # The default guardrails

`DeterministicGuardrails`: two patterns, each a verb and an object at most forty
characters behind it on the same line. They are looked for in the request, in
each retrieved document and in the joined text of the proposal. -/
namespace AgenticDelivery.Runtime
open AgenticDelivery.Data

def overrideVerbs : List String := ["ignore", "disregard", "override"]
def overrideObjects : List String := ["previous", "prior", "system", "developer"]
def exfiltrationVerbs : List String := ["reveal", "print", "return", "expose"]
def exfiltrationObjects : List String := ["secret", "credential", "system prompt", "token"]

/-- `PATTERNS` -/
def guardrailPatterns : List (String × Regex Char) :=
  [("instruction_override",
      .near (phrases overrideVerbs) 40 anyButNewline (phrases overrideObjects)),
    ("secret_exfiltration",
      .near (phrases exfiltrationVerbs) 40 anyButNewline (phrases exfiltrationObjects))]

namespace DeterministicGuardrails
variable (u : Unicode)

def detectedPatterns (text : String) : List String :=
  (guardrailPatterns.filter fun pattern => u.search pattern.2 text).map Prod.fst

def checkInput (text : String) : Except RuntimeError Unit :=
  if detectedPatterns u text ≠ [] then
    .error (.promptInjectionBlocked
      "The request contains an instruction-override pattern and was blocked.")
  else .ok ()

/-- The safe passages, and the identifiers of the quarantined documents. -/
def filterRetrieval : List RetrievedPassage → List RetrievedPassage × List String
  | [] => ([], [])
  | passage :: rest =>
    if detectedPatterns u passage.document.content ≠ [] then
      ((filterRetrieval rest).1, passage.document.documentId :: (filterRetrieval rest).2)
    else (passage :: (filterRetrieval rest).1, (filterRetrieval rest).2)

def checkOutput (proposal : ImplementationProposal) : List String :=
  detectedPatterns u
    (" ".intercalate (proposal.summary :: proposal.deliverySteps ++ proposal.risks))

end DeterministicGuardrails

open DeterministicGuardrails in
def deterministicGuardrails (u : Unicode) : Guardrails where
  policyVersion := "local-guardrails-v1"
  checkInput := checkInput u
  filterRetrieval passages := .ok (filterRetrieval u passages)
  checkOutput proposal := .ok (checkOutput u proposal)

/-! ## Safe texts -/

open DeterministicGuardrails

/-- No guardrail pattern matches the text. -/
def Safe (u : Unicode) (text : String) : Prop := detectedPatterns u text = []

instance (u : Unicode) (text : String) : Decidable (Safe u text) :=
  inferInstanceAs (Decidable (_ = _))

variable {u : Unicode}

theorem safe_iff {text : String} :
    Safe u text ↔ ∀ pattern ∈ guardrailPatterns, u.search pattern.2 text = false := by
  rw [Safe, detectedPatterns, List.map_eq_nil_iff, List.filter_eq_nil_iff]
  exact forall₂_congr fun _ _ => by rw [Bool.not_eq_true]

theorem checkInput_eq (text : String) : checkInput u text =
    if Safe u text then .ok () else .error (.promptInjectionBlocked
      "The request contains an instruction-override pattern and was blocked.") := by
  rw [checkInput, ite_not]
  rfl

/-- The filter keeps the safe passages, in their order. -/
theorem filterRetrieval_fst (passages : List RetrievedPassage) :
    (filterRetrieval u passages).1 = passages.filter fun item => Safe u item.document.content := by
  induction passages with
  | nil => rfl
  | cons passage rest ih =>
    rw [filterRetrieval, List.filter_cons]
    by_cases hs : Safe u passage.document.content
    · have hd : ¬detectedPatterns u passage.document.content ≠ [] := not_not.mpr hs
      rw [if_neg hd, if_pos (decide_eq_true hs), ih]
    · have hd : detectedPatterns u passage.document.content ≠ [] := hs
      rw [if_pos hd, if_neg (by rwa [decide_eq_true_eq]), ih]

/-- No safe passage is quarantined. -/
theorem filterRetrieval_safe {passages : List RetrievedPassage}
    (h : ∀ passage ∈ passages, Safe u passage.document.content) :
    filterRetrieval u passages = (passages, []) := by
  induction passages with
  | nil => rfl
  | cons passage rest ih =>
    obtain ⟨hp, h⟩ := List.forall_mem_cons.mp h
    have hd : ¬detectedPatterns u passage.document.content ≠ [] := not_not.mpr hp
    rw [filterRetrieval, if_neg hd, ih h]

/-- The parts of a safe joined text are safe. -/
theorem Safe.of_join {parts : List String} (h : Safe u (" ".intercalate parts)) {part : String}
    (hp : part ∈ parts) : Safe u part := by
  rw [safe_iff] at h ⊢
  intro pattern hm
  by_contra hs
  rw [Bool.not_eq_false] at hs
  have hjoin := h pattern hm
  rw [Unicode.search_join hp hs] at hjoin
  cases hjoin

/-! ## Walls between texts -/

/-- No verb or object of a pattern can reach into the text, and it is longer than
the gap between them. -/
def isWall (wall : List Char) : Bool :=
  bars (overrideVerbs ++ overrideObjects ++ exfiltrationVerbs ++ exfiltrationObjects) wall &&
    decide (40 < wall.length)

theorem clear_of_isWall {word : Char → Bool} {wall : List Char} (h : isWall wall = true) :
    ∀ pattern ∈ guardrailPatterns, Regex.Clear word pattern.2 wall := by
  rw [isWall, Bool.and_eq_true, decide_eq_true_eq] at h
  obtain ⟨hb, hlen⟩ := h
  have clear {texts : List String} (hs : texts ⊆ overrideVerbs ++ overrideObjects ++
      exfiltrationVerbs ++ exfiltrationObjects) : Regex.Clear word (phrases texts) wall :=
    clear_phrases (bars_subset hb hs)
  intro pattern hp
  rcases List.mem_cons.mp hp with rfl | hp
  · exact Regex.Clear.near (clear (by decide)) (clear (by decide)) hlen
  · obtain rfl := List.mem_singleton.mp hp
    exact Regex.Clear.near (clear (by decide)) (clear (by decide)) hlen

theorem solid_guardrailPatterns {word : Char → Bool} :
    ∀ pattern ∈ guardrailPatterns, Regex.Solid word pattern.2 := by
  intro pattern hp
  rcases List.mem_cons.mp hp with rfl | hp
  · exact Regex.Solid.near (solid_phrases (by decide))
  · obtain rfl := List.mem_singleton.mp hp
    exact Regex.Solid.near (solid_phrases (by decide))

theorem safe_iff_not_occurs {text : String} :
    Safe u text ↔ ∀ pattern ∈ guardrailPatterns, ¬pattern.2.Occurs u.isWord text.toList := by
  rw [safe_iff]
  exact forall₂_congr fun _ _ => by rw [← Bool.not_eq_true, Unicode.search_iff]

/-- **A text with a wall in it is safe when both sides are.** -/
theorem safe_wall_iff {left wall right : String} (h : isWall wall.toList = true)
    (hb : wall.toList.head?.any isOutside = true)
    (he : wall.toList.getLast?.any isOutside = true) :
    Safe u (left ++ wall ++ right) ↔ Safe u left ∧ Safe u right := by
  simp only [safe_iff_not_occurs, ← forall₂_and, String.toList_append]
  refine forall₂_congr fun pattern hp => ?_
  rw [Regex.occurs_wall_iff (clear_of_isWall h pattern hp) (beginsOutside_of_any u hb)
    (endsOutside_of_any u he), not_or]

/-- **A text behind a wall is safe when it is safe alone.** -/
theorem safe_behind_iff {wall right : String} (h : isWall wall.toList = true)
    (he : wall.toList.getLast?.any isOutside = true) :
    Safe u (wall ++ right) ↔ Safe u right := by
  simp only [safe_iff_not_occurs, String.toList_append]
  refine forall₂_congr fun pattern hp => ?_
  rw [Regex.occurs_behind_iff (clear_of_isWall h pattern hp) (solid_guardrailPatterns pattern hp)
    (endsOutside_of_any u he)]

theorem safe_empty : Safe u "" := by
  rw [safe_iff]
  intro pattern hp
  have hascii : ∀ c ∈ "".toList, c.toNat < 128 := by
    intro c hc
    cases hc
  rw [u.search_ascii pattern.2 hascii]
  revert pattern
  decide

end AgenticDelivery.Runtime
