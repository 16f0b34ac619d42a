import AgenticDelivery.Runtime.Poisoning

/-! # The citations of a run

A citation names a document, a section and a version. The gate looks the passage
up by the document alone, so of several sections or versions of one document only
the last can be verified. -/
namespace AgenticDelivery.Runtime
open AgenticDelivery.Data DeterministicEvaluationGate

/-- The gate reports the check with this outcome. -/
def Reports (result : EvaluationGateResult) (name : String) (passed : Bool) : Prop :=
  { name, passed } ∈ result.checks

variable {u : Unicode} {passages : List RetrievedPassage}

theorem reports_integrity_iff (proposal : ImplementationProposal) (outputPatterns : List String)
    {passed : Bool} :
    Reports (evaluate proposal (passages.map citationFor) passages outputPatterns)
        "citation_integrity" passed ↔
      (passed = true ↔ passages ≠ [] ∧ OneContent passages) := by
  have hall : ((passages.map citationFor).all (intact (passageById passages))) = true ↔
      OneContent passages := by
    rw [List.all_map, List.all_eq_true, ← intact_citationFor_iff]
    rfl
  have hcheck : Reports (evaluate proposal (passages.map citationFor) passages outputPatterns)
      "citation_integrity" passed ↔ passed = decide (passages.map citationFor ≠ [] ∧
        (passages.map citationFor).all (intact (passageById passages)) = true) := by
    simp [Reports, evaluate, checks]
  rw [hcheck, ← Bool.coe_iff_coe, decide_eq_true_eq, hall, ne_eq, List.map_eq_nil_iff]

/-- The node cites what is kept. -/
theorem retrieveLocalPolicy_kept (retriever : LocalKnowledgeRetriever) {state : RuntimeState}
    {classification : Classification} (hc : state.classification = some classification) :
    ∃ state', (defaultRuntime u retriever).retrieveLocalPolicy state = .ok state' ∧
      state'.citations = some ((kept u state.planningInput.request classification.category
        retriever.topK retriever.documents).map citationFor) ∧
      state'.passages = some (kept u state.planningInput.request classification.category
        retriever.topK retriever.documents) := by
  have hscores (passage : RetrievedPassage) (hp : passage ∈ kept u state.planningInput.request
      classification.category retriever.topK retriever.documents) :
      0 ≤ passage.relevanceScore ∧ passage.relevanceScore ≤ 1 := by
    rw [(mem_ranked.mp (mem_kept hp).1).2.2]
    exact relevance_mem _
  have hfst := filterRetrieval_fst (u := u)
    (retriever.retrieve u state.planningInput.request classification.category).passages
  have hcitations := mapM_citationOf hscores
  simp only [DeterministicAgentRuntime.retrieveLocalPolicy, hc,
    DeterministicAgentRuntime.channel_some, DeterministicAgentRuntime.ok_bind, defaultRuntime,
    guardedRuntime, deterministicGuardrails]
  rw [hfst]
  exact ⟨_, congrArg (· >>= _) hcitations, rfl, rfl⟩

/-- **The citations of a run verify exactly when the passages that are kept have one
content for each document**; otherwise the gate blocks the plan for it. -/
theorem citationIntegrity_iff (u : Unicode) (retriever : LocalKnowledgeRetriever)
    (planningInput : PlanningInput)
    (hne : kept u planningInput.request (categoryOf u planningInput) retriever.topK
      retriever.documents ≠ []) :
    (∀ state : RuntimeState, state.planningInput = planningInput →
      state.classification = some (DeterministicAgentRuntime.classifyRequest
        (u.lower planningInput.request)) →
      ∃ state' citations passages,
        (defaultRuntime u retriever).retrieveLocalPolicy state = .ok state' ∧
        state'.citations = some citations ∧ state'.passages = some passages ∧
        ∀ proposal outputPatterns,
          Reports (evaluate proposal citations passages outputPatterns) "citation_integrity"
              true ↔
            OneContent (kept u planningInput.request (categoryOf u planningInput) retriever.topK
              retriever.documents)) ∧
    (Safe u planningInput.request → ∀ thread,
      ((∃ result, (defaultRuntime u retriever).plan thread planningInput =
            .error (.evaluationGateBlocked result) ∧
          Reports result "citation_integrity" false) ↔
        ¬OneContent (kept u planningInput.request (categoryOf u planningInput) retriever.topK
          retriever.documents))) := by
  constructor
  · rintro state rfl hc
    obtain ⟨state', hs, hcitations, hpassages⟩ := retrieveLocalPolicy_kept (u := u) retriever hc
    refine ⟨state', _, _, hs, hcitations, hpassages, fun proposal outputPatterns => ?_⟩
    rw [reports_integrity_iff]
    exact ⟨fun h => (h.mp rfl).2, fun h => ⟨fun _ => ⟨hne, h⟩, fun _ => rfl⟩⟩
  · intro hreq thread
    rw [plan_kept thread retriever hreq]
    constructor
    · rintro ⟨result, hblocked, -⟩ hone
      rw [if_pos ⟨hne, hone⟩] at hblocked
      cases hblocked
    · intro hone
      rw [if_neg fun hgood => hone hgood.2]
      refine ⟨_, rfl, (reports_integrity_iff _ _).mpr ⟨nofun, fun hgood => ?_⟩⟩
      exact absurd hgood.2 hone

/-- Two sections of one document. -/
def handbook (second : String) : LocalKnowledgeRetriever where
  documents :=
    [⟨"handbook", "Handbook", "testing", "1", "Test failure modes.", ["general"]⟩,
      ⟨"handbook", "Handbook", "evidence", "1", second, ["general"]⟩]

/-- A section that is printed twice verifies. -/
theorem citationIntegrity_reprint :
    ¬∃ result, (defaultRuntime asciiUnicode (handbook "Test failure modes.")).plan newThread
        mixedInput = .error (.evaluationGateBlocked result) ∧
      Reports result "citation_integrity" false := by
  have hne : kept asciiUnicode mixedInput.request (categoryOf asciiUnicode mixedInput)
      (handbook "Test failure modes.").topK (handbook "Test failure modes.").documents ≠ [] := by
    decide +kernel
  have hone : OneContent (kept asciiUnicode mixedInput.request (categoryOf asciiUnicode mixedInput)
      (handbook "Test failure modes.").topK (handbook "Test failure modes.").documents) := by
    decide +kernel
  obtain ⟨-, hplan⟩ :=
    citationIntegrity_iff asciiUnicode (handbook "Test failure modes.") mixedInput hne
  rw [hplan safe_mixedInput newThread, not_not]
  exact hone

/-- Two sections with contents of their own are both retrieved and both cited, and the
first does not verify: a harmless request is blocked. -/
theorem handbook_not_verified :
    Safe asciiUnicode mixedInput.request ∧
      (kept asciiUnicode mixedInput.request (categoryOf asciiUnicode mixedInput)
        (handbook "Retain evidence.").topK (handbook "Retain evidence.").documents).length = 2 ∧
      ∃ result, (defaultRuntime asciiUnicode (handbook "Retain evidence.")).plan newThread
          mixedInput = .error (.evaluationGateBlocked result) ∧
        Reports result "citation_integrity" false := by
  have htwo : (kept asciiUnicode mixedInput.request (categoryOf asciiUnicode mixedInput)
      (handbook "Retain evidence.").topK (handbook "Retain evidence.").documents).length = 2 := by
    decide +kernel
  have hmany : ¬OneContent (kept asciiUnicode mixedInput.request
      (categoryOf asciiUnicode mixedInput) (handbook "Retain evidence.").topK
      (handbook "Retain evidence.").documents) := by
    decide +kernel
  refine ⟨safe_mixedInput, htwo, ?_⟩
  rw [plan_kept newThread (handbook "Retain evidence.") safe_mixedInput,
    if_neg fun hgood => hmany hgood.2]
  exact ⟨_, rfl, (reports_integrity_iff _ _).mpr ⟨nofun, fun hgood => absurd hgood.2 hmany⟩⟩

end AgenticDelivery.Runtime
