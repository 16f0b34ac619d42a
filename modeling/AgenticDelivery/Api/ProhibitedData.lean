import AgenticDelivery.Api.Runs
import AgenticDelivery.Governance.Policy
import AgenticDelivery.Runtime.LocalPlan

/-! # Prohibited data

With the policy engine in enforce mode, the local classifier and the default
runtime, a text that matches a pattern of the prohibited categories is neither
stored nor written into a plan or a ticket. -/
namespace AgenticDelivery.Api
open AgenticDelivery.Atomic AgenticDelivery.Data AgenticDelivery.Governance AgenticDelivery.Runtime

/-- The patterns of credentials and of payment-card data. -/
def prohibitedPatterns : List (Regex Char) :=
  [wholePhrases credentialPhrases, wholePhrases paymentCardPhrases]

/-- No prohibited pattern matches the text. -/
def Untainted (u : Unicode) (text : String) : Prop :=
  ∀ pattern ∈ prohibitedPatterns, u.search pattern text = false

/-- The local profile: the engine in enforce mode, the classifier and the default
runtime over the local corpus. -/
structure LocalProfile (u : Unicode) (env : Environment) : Prop where
  classifier : env.classifier = DeterministicDataClassifier.classify u
  policy : env.policy = BaselinePolicyEngine.evaluate .enforce
  runtime : RunsGraph env (defaultRuntime u {})

/-- Nothing that a workflow holds is prohibited. -/
structure NotProhibited (u : Unicode) (w : Workflow) : Prop where
  categories : ∀ category ∈ prohibitedIntake,
    category ∉ w.processingContext.dataProfile.categories
  request : Untainted u w.request
  planned : ∀ result, w.planningResult = some result →
    Untainted u result.proposal.summary ∧ ∀ step ∈ result.proposal.deliverySteps, Untainted u step
  ticket : ∀ proposal, w.actionProposal = some proposal →
    Untainted u proposal.arguments.title ∧ ∀ step ∈ proposal.arguments.deliverySteps,
      Untainted u step

variable {u : Unicode} {env : Environment} {c : PoolConfig} {w w' : Workflow}

/-! ## Classified texts -/

/-- What is not classified as prohibited does not match. -/
theorem untainted_of_categories {text : String} {declared : Option (Finset DataCategory)}
    (h : ∀ category ∈ prohibitedIntake,
      category ∉ (DeterministicDataClassifier.classify u text declared).categories) :
    Untainted u text := by
  have hno (category : DataCategory) (pattern : Regex Char)
      (hc : category ∈ prohibitedIntake) (hp : (category, pattern) ∈ classifierPatterns) :
      u.search pattern text = false := by
    rw [← Bool.not_eq_true]
    intro hs
    exact h category hc (DeterministicDataClassifier.mem_categories_of_detected
      (DeterministicDataClassifier.mem_detected_iff.mpr ⟨pattern, hp, hs⟩))
  intro pattern hp
  rcases List.mem_cons.mp hp with rfl | hp
  · exact hno .credentials _ List.mem_cons_self (.tail _ (.tail _ (.tail _ (.head _))))
  · obtain rfl := List.mem_singleton.mp hp
    exact hno .paymentCardData _ (.tail _ (.head _)) (.tail _ (.tail _ (.head _)))

/-! ## Planned texts -/

/-- The opening of a summary bars every prohibited phrase. -/
theorem bars_opening (complexity : Complexity) (category : Category) :
    bars (credentialPhrases ++ paymentCardPhrases)
      (DeterministicProposalProvider.opening complexity category).toList = true := by
  have h : ∀ complexity ∈ [Complexity.low, .medium, .high],
      ∀ category ∈ [Category.general, .integration, .security, .data],
        bars (credentialPhrases ++ paymentCardPhrases)
          ("Prepare a ".toList ++ complexity.value.toList ++ "-complexity ".toList ++
            category.value.toList ++ " delivery for: ".toList) = true := by decide
  rw [DeterministicProposalProvider.toList_opening]
  exact h complexity (by cases complexity <;> decide) category (by cases category <;> decide)

theorem clear_opening {word : Char → Bool} (complexity : Complexity) (category : Category) :
    ∀ pattern ∈ prohibitedPatterns, Regex.Clear word pattern
      (DeterministicProposalProvider.opening complexity category).toList := by
  have clear {texts : List String} (hs : texts ⊆ credentialPhrases ++ paymentCardPhrases) :
      Regex.Clear word (wholePhrases texts)
        (DeterministicProposalProvider.opening complexity category).toList :=
    Regex.Clear.whole (clear_phrases (bars_subset (bars_opening complexity category) hs))
  intro pattern hp
  rcases List.mem_cons.mp hp with rfl | hp
  · exact clear (by decide)
  · obtain rfl := List.mem_singleton.mp hp
    exact clear (by decide)

theorem solid_prohibitedPatterns {word : Char → Bool} :
    ∀ pattern ∈ prohibitedPatterns, Regex.Solid word pattern := by
  intro pattern hp
  rcases List.mem_cons.mp hp with rfl | hp
  · exact Regex.Solid.whole (solid_phrases (by decide))
  · obtain rfl := List.mem_singleton.mp hp
    exact Regex.Solid.whole (solid_phrases (by decide))

/-- **Behind the opening a request matches what it matches alone.** -/
theorem untainted_opening_iff (complexity : Complexity) (category : Category) (request : String) :
    Untainted u (DeterministicProposalProvider.opening complexity category ++ request) ↔
      Untainted u request := by
  refine forall₂_congr fun pattern hp => ?_
  rw [← Bool.not_eq_true, ← Bool.not_eq_true, Unicode.search_iff, Unicode.search_iff,
    String.toList_append, Regex.occurs_behind_iff (clear_opening complexity category pattern hp)
      (solid_prohibitedPatterns pattern hp)
      (endsOutside_of_any u (DeterministicProposalProvider.opening_getLast? complexity category))]

/-- The delivery steps that a plan over the local corpus can have. -/
def possibleSteps : List String :=
  [Category.general, .integration, .security, .data].map
      DeterministicProposalProvider.categoryStep ++
    "Stop when no grounded guidance exists." ::
      (localCorpus.map fun document => document.content) ++
    DeterministicProposalProvider.laterSteps

theorem untainted_possibleSteps : ∀ step ∈ possibleSteps, Untainted u step := by
  have h : ∀ step ∈ possibleSteps, (step.toList.all fun c => c.toNat < 128) = true ∧
      ∀ pattern ∈ prohibitedPatterns, pattern.search asciiWord step.toList = false := by
    refine List.forall_mem_append.mpr ⟨List.forall_mem_append.mpr ⟨?_, ?_⟩, ?_⟩
    · decide
    · decide +kernel
    · decide +kernel
  intro step hs pattern hp
  obtain ⟨hascii, hsearch⟩ := h step hs
  rw [u.search_ascii pattern fun c hc => of_decide_eq_true (List.all_eq_true.mp hascii c hc)]
  exact hsearch pattern hp

theorem guidance_mem {passages : List RetrievedPassage}
    (h : ∀ passage ∈ passages, passage.document ∈ localCorpus) :
    DeterministicProposalProvider.guidance passages ∈ "Stop when no grounded guidance exists." ::
      localCorpus.map fun document => document.content := by
  cases passages with
  | nil => exact List.mem_cons_self
  | cons passage passages =>
    have hmem := h passage List.mem_cons_self
    exact List.mem_cons_of_mem _ (List.mem_map.mpr ⟨passage.document, hmem, rfl⟩)

theorem generate_deliverySteps {planningInput : PlanningInput} {classification : Classification}
    {passages : List RetrievedPassage} (h : ∀ passage ∈ passages, passage.document ∈ localCorpus) :
    (DeterministicProposalProvider.generate planningInput classification passages).deliverySteps ⊆
      possibleSteps := by
  intro step hs
  rw [possibleSteps, List.mem_append, List.mem_append]
  rcases List.mem_cons.mp hs with rfl | hs
  · refine .inl (.inl (List.mem_map_of_mem ?_))
    cases classification.category <;> decide
  · rcases List.mem_cons.mp hs with rfl | hs
    · exact .inl (.inr (guidance_mem h))
    · exact .inr hs

/-- The default runtime plans with documents of the local corpus. -/
theorem document_mem_localCorpus {planningInput : PlanningInput} {passages : List RetrievedPassage}
    {result : PlanningResult}
    (h : (defaultRuntime u {}).Returned planningInput passages result) :
    ∀ passage ∈ passages, passage.document ∈ localCorpus := by
  intro passage hp
  obtain ⟨batch, quarantined, hb, hf⟩ := h.retrieved
  cases hb
  obtain rfl : (DeterministicGuardrails.filterRetrieval u _).1 = passages :=
    congrArg Prod.fst (Except.ok.inj hf)
  rw [filterRetrieval_fst] at hp
  obtain ⟨hp, -⟩ := List.mem_filter.mp hp
  exact (mem_ranked.mp (top_subset hp)).1

/-- **What the default runtime plans is untainted when the request is.** -/
theorem untainted_plan {thread : RuntimeState} {planningInput : PlanningInput}
    {result : PlanningResult} (hp : (defaultRuntime u {}).plan thread planningInput = .ok result)
    (h : Untainted u planningInput.request) :
    Untainted u result.proposal.summary ∧
      ∀ step ∈ result.proposal.deliverySteps, Untainted u step := by
  obtain ⟨passages, hr⟩ := DeterministicAgentRuntime.plan_returned _ hp
  have hproposal : DeterministicProposalProvider.generate planningInput result.classification
      passages = result.proposal := Except.ok.inj hr.proposal
  have hdocuments := document_mem_localCorpus hr
  rw [← hproposal]
  refine ⟨?_, fun step hs => untainted_possibleSteps step (generate_deliverySteps hdocuments hs)⟩
  exact (untainted_opening_iff result.classification.complexity result.classification.category
    planningInput.request).mpr h

/-! ## Stored workflows -/

/-- A step keeps prohibited data out. -/
theorem NotProhibited.advance (hl : LocalProfile u env) {call : Call} (ha : Advance env call w w')
    (h : NotProhibited u w) : NotProhibited u w' := by
  cases ha with
  | @plan _ correlationId _ n result _ _ _ _ _ _ answer =>
    obtain ⟨thread, hg⟩ := hl.runtime n (WorkflowService.planningInput w correlationId)
    rw [answer] at hg
    have hplan := untainted_plan hg.symm h.request
    refine ⟨h.categories, h.request, fun result' hr => ?_, fun proposal hp => ?_⟩
    · cases hr
      exact hplan
    · cases hp
      exact hplan
  | completeExecution _ _ _ _ _ completed =>
    obtain ⟨_, -, rfl⟩ := completeExecution_ok completed
    exact ⟨h.categories, h.request, h.planned, h.ticket⟩
  | _ => exact ⟨h.categories, h.request, h.planned, h.ticket⟩

theorem Lifecycle.notProhibited (hl : LocalProfile u env) (h : Lifecycle env w) :
    NotProhibited u w := by
  induction h with
  | receive admitted =>
    have hallowed := admitted.policy
    rw [hl.policy, hl.classifier] at hallowed
    have hcategories : ∀ category ∈ prohibitedIntake,
        category ∉ (DeterministicDataClassifier.classify u (normalizeRequest _) _).categories :=
      BaselinePolicyEngine.not_prohibited hallowed rfl
    have hrequest := untainted_of_categories hcategories
    refine ⟨?_, hrequest, ?_, ?_⟩
    · simp only [CreateRequest.received, Workflow.receive, hl.classifier]
      exact hcategories
    · intro _ hr
      cases hr
    · intro _ hp
      cases hp
  | advance _ ha ih => exact ih.advance hl ha

/-- **In enforce mode prohibited data is never stored.** -/
theorem stored_notProhibited (hl : LocalProfile u env) (hf : Function.Injective env.idFactory)
    (hc : Reachable env c) {id : String} (hw : c.state.stored id = some w) : NotProhibited u w :=
  ((hc.consistent hf).stored hw).2.1.notProhibited hl

/-- The local profile over ASCII. -/
def localEnv : Environment :=
  { sampleEnv with
    runtime := fun _ planningInput =>
      (defaultRuntime asciiUnicode {}).plan { planningInput, completedStates := [] } planningInput
    classifier := DeterministicDataClassifier.classify asciiUnicode
    policy := BaselinePolicyEngine.evaluate .enforce }

theorem localEnv_profile : LocalProfile asciiUnicode localEnv where
  classifier := rfl
  policy := rfl
  runtime _ _ := ⟨_, rfl⟩

/-- What its runtime answers. -/
theorem localEnv_planned : localEnv =
    { localEnv with
      runtime := fun _ planningInput =>
        if Safe asciiUnicode planningInput.request then
          .ok (defaultResult asciiUnicode planningInput "local-delivery-corpus-v1"
            (found asciiUnicode planningInput 2 localCorpus) [])
        else .error (.promptInjectionBlocked
          "The request contains an instruction-override pattern and was blocked.") } := by
  have hruntime : localEnv.runtime = _ := funext₂ fun _ _ => plan_localCorpus _
  exact congrArg (fun runtime => { localEnv with runtime }) hruntime

/-- A workflow that is created and planned under the local profile. -/
theorem stored_notProhibited_localEnv : ∃ w result proposal,
    ((system localEnv).play (initial 0 0) (moves 0 (.create sampleRequest) 8 ++
      moves 1 (.plan localRequester "w" "c-2") 8)).state.stored "w" = some w ∧
    w.planningResult = some result ∧ w.actionProposal = some proposal ∧
    NotProhibited asciiUnicode w := by
  have hs : (((system localEnv).play (initial 0 0) (moves 0 (.create sampleRequest) 8 ++
      moves 1 (.plan localRequester "w" "c-2") 8)).state.stored "w").any
        (fun w => w.planningResult.isSome && w.actionProposal.isSome) = true := by
    rw [localEnv_planned]
    decide
  obtain ⟨w, hw, hplanned⟩ := (Option.any_eq_true _ _).mp hs
  rw [Bool.and_eq_true] at hplanned
  obtain ⟨result, hr⟩ := Option.isSome_iff_exists.mp hplanned.1
  obtain ⟨proposal, hp⟩ := Option.isSome_iff_exists.mp hplanned.2
  exact ⟨w, result, proposal, hw, hr, hp, stored_notProhibited localEnv_profile sampleId_injective
    (reachable_play localEnv 0 0 _) hw⟩

end AgenticDelivery.Api
