import AgenticDelivery.Runtime.Poisoning

/-! # The plan over the local corpus

Without a configuration the runtime blocks the requests that match a guardrail
pattern and plans all others. Its own corpus is safe, and never without a
passage: one document is of use to every request. -/
namespace AgenticDelivery.Runtime
open AgenticDelivery.Data

/-- A plan in which nothing was held back. -/
structure Unrestricted (result : PlanningResult) : Prop where
  completedStates : result.completedStates = [.validated, .guarded, .classified, .contextBuilt,
    .knowledgeRetrieved, .planned, .evaluated]
  cited : result.citations ≠ []
  quarantined : result.retrieval.quarantinedDocumentIds = []
  filtered : result.guardrails.retrievalOutcome = .passed
  checks : result.evaluation.checks.map EvaluationCheck.name = ["structured_output",
    "citation_present", "citation_integrity", "grounded_guidance", "output_safety"]
  passed : ∀ check ∈ result.evaluation.checks, check.passed = true
  accepted : result.evaluation.passed = true

variable {u : Unicode} {planningInput : PlanningInput} {query : String} {category : Category}

/-- Whatever Unicode is, no document of the corpus matches: it is in ASCII. -/
theorem safe_localCorpus : ∀ document ∈ localCorpus, Safe u document.content := by
  have hascii : (localCorpus.all fun document =>
      document.content.toList.all fun c => c.toNat < 128) = true := by decide +kernel
  have hclean : (localCorpus.all fun document => guardrailPatterns.all fun pattern =>
      !pattern.2.search asciiWord document.content.toList) = true := by decide +kernel
  intro document hd
  rw [safe_iff]
  intro pattern hp
  have hchars := List.all_eq_true.mp (List.all_eq_true.mp hascii document hd)
  rw [u.search_ascii pattern.2 fun c hc => of_decide_eq_true (hchars c hc), ← Bool.not_eq_true']
  exact List.all_eq_true.mp (List.all_eq_true.mp hclean document hd) pattern hp

theorem nodup_localCorpus : (localCorpus.map fun document => document.documentId).Nodup := by
  decide

/-- A document for everyone scores for every request. -/
theorem rawScore_general (query : String) (category : Category) {document : KnowledgeDocument}
    (h : "general" ∈ document.tags) : rawScore u query category document ≠ 0 := by
  have hbonus : (if "general" ∈ document.tags then 1 else 0) = 1 := if_pos h
  show _ + _ + (if "general" ∈ document.tags then 1 else 0) ≠ 0
  omega

theorem ranked_localCorpus_ne_nil : ranked u query category localCorpus ≠ [] := by
  have hd : ∃ document ∈ localCorpus, "general" ∈ document.tags := by decide
  obtain ⟨document, hd, hg⟩ := hd
  have hp : { document, relevanceScore := relevance (rawScore u query category document) } ∈
      ranked u query category localCorpus :=
    mem_ranked.mpr ⟨hd, rawScore_general query category hg, rfl⟩
  exact List.ne_nil_of_mem hp

theorem found_localCorpus_ne_nil {topK : Int} (h : 0 < topK) :
    found u planningInput topK localCorpus ≠ [] := by
  obtain ⟨k, rfl⟩ := Int.eq_ofNat_of_zero_le h.le
  have hsorted : (ranked u planningInput.request (categoryOf u planningInput)
      localCorpus).insertionSort Outranks ≠ [] := by
    rw [ne_eq, ← List.length_eq_zero_iff, List.length_insertionSort, List.length_eq_zero_iff]
    exact ranked_localCorpus_ne_nil
  rw [found, top, sliceTo_natCast, ne_eq, List.take_eq_nil_iff, not_or]
  exact ⟨by omega, hsorted⟩

theorem safe_found {topK : Int} :
    ∀ passage ∈ found u planningInput topK localCorpus, Safe u passage.document.content :=
  fun passage hp => safe_localCorpus passage.document (mem_ranked.mp (top_subset hp)).1

/-- All that is found is kept. -/
theorem kept_localCorpus (topK : Int) :
    kept u planningInput.request (categoryOf u planningInput) topK localCorpus =
      found u planningInput topK localCorpus :=
  List.filter_eq_self.mpr fun passage hp => decide_eq_true (safe_found passage hp)

/-- The default plan of a safe request holds nothing back, when there are passages,
all of them clean and none of them quarantined. -/
theorem unrestricted_defaultResult {passages : List RetrievedPassage} (version : String)
    (hreq : Safe u planningInput.request) (hc : Clean u passages) (hne : passages ≠ []) :
    Unrestricted (defaultResult u planningInput version passages []) := by
  have hpassed := (passed_generate_iff
    (DeterministicAgentRuntime.classifyRequest (u.lower planningInput.request)) hreq hc.safe).mpr
    ⟨hne, DeterministicEvaluationGate.oneContent_of_nodup hc.distinct⟩
  exact
    { completedStates := rfl
      cited := by
        intro hnil
        exact hne (List.map_eq_nil_iff.mp hnil)
      quarantined := rfl
      filtered := rfl
      checks := rfl
      passed := DeterministicEvaluationGate.passed_iff_checks.mp hpassed
      accepted := hpassed }

/-- The default runtime blocks a request or plans it with all that is found. -/
theorem plan_localCorpus (thread : RuntimeState) :
    (defaultRuntime u {}).plan thread planningInput =
      if Safe u planningInput.request then .ok (defaultResult u planningInput
        "local-delivery-corpus-v1" (found u planningInput 2 localCorpus) [])
      else .error (.promptInjectionBlocked
        "The request contains an instruction-override pattern and was blocked.") := by
  by_cases hreq : Safe u planningInput.request
  · have hfound : found u planningInput 2 localCorpus ≠ [] := found_localCorpus_ne_nil (by decide)
    have hplan := plan_safe thread 2 "local-delivery-corpus-v1" hreq (.refl nodup_localCorpus)
    simp only [filterRetrieval_safe safe_found, kept_localCorpus, if_neg hfound] at hplan
    rw [if_pos hreq]
    exact hplan
  · rw [if_neg hreq]
    exact plan_blocked {} thread hreq

/-- **The exact outcome of the default planner**: a request that matches a guardrail
pattern is blocked, and every other request is planned. -/
theorem plan_local (u : Unicode) (thread : RuntimeState) (planningInput : PlanningInput) :
    ((∃ message, (defaultRuntime u {}).plan thread planningInput =
        .error (.promptInjectionBlocked message)) ↔
      ∃ pattern ∈ guardrailPatterns, u.search pattern.2 planningInput.request = true) ∧
    ((¬∃ pattern ∈ guardrailPatterns, u.search pattern.2 planningInput.request = true) →
      ∃ result, (defaultRuntime u {}).plan thread planningInput = .ok result ∧
        Unrestricted result) := by
  have hmatch : (∃ pattern ∈ guardrailPatterns, u.search pattern.2 planningInput.request = true) ↔
      ¬Safe u planningInput.request := by
    rw [safe_iff]
    push Not
    exact exists_congr fun _ => and_congr_right fun _ => Bool.ne_false_iff.symm
  have hplanned (hreq : Safe u planningInput.request) : ∃ result,
      (defaultRuntime u {}).plan thread planningInput = .ok result ∧ Unrestricted result := by
    have hclean : Clean u (found u planningInput 2 localCorpus) := by
      rw [← kept_localCorpus]
      exact (Poisoned.refl nodup_localCorpus).clean 2
    exact ⟨_, (plan_localCorpus thread).trans (if_pos hreq),
      unrestricted_defaultResult _ hreq hclean (found_localCorpus_ne_nil (by decide))⟩
  rw [hmatch, not_not]
  refine ⟨⟨?_, fun hreq => ⟨_, plan_blocked {} thread hreq⟩⟩, hplanned⟩
  rintro ⟨message, hblocked⟩ hreq
  obtain ⟨result, hplan, -⟩ := hplanned hreq
  rw [hplan] at hblocked
  cases hblocked

/-- A harmless request is planned. -/
theorem plan_local_mixedInput :
    ∃ result, (defaultRuntime asciiUnicode {}).plan newThread mixedInput = .ok result ∧
      Unrestricted result := by
  refine (plan_local asciiUnicode newThread mixedInput).2 ?_
  rintro ⟨pattern, hp, hs⟩
  rw [safe_iff.mp safe_mixedInput pattern hp] at hs
  cases hs

end AgenticDelivery.Runtime
