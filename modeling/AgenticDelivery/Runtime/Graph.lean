import Mathlib.Data.List.Infix
import AgenticDelivery.Data.Json
import AgenticDelivery.Runtime.Models

/-! # The planning graph

`DeterministicAgentRuntime`: seven nodes on one line, run on a record of
channels. A node returns the channels it overwrites; a checkpoint may hold the
channels of an earlier attempt on the same thread, so a run starts from any old
record, with the input channels overwritten. Retriever, guardrails, provider
and gate are what the constructor is given. -/
namespace AgenticDelivery.Runtime
open AgenticDelivery.Data

structure KnowledgeDocument where
  documentId : String
  title : String
  section_ : String
  version : String
  content : String
  tags : List String
  deriving DecidableEq, Repr

structure RetrievedPassage where
  document : KnowledgeDocument
  relevanceScore : ℚ
  deriving DecidableEq, Repr

def RetrievedPassage.contentHash (passage : RetrievedPassage) : String :=
  Sha256.hexdigest (encodeUtf8 passage.document.content)

structure RetrievalBatch where
  corpusVersion : String
  passages : List RetrievedPassage
  deriving DecidableEq, Repr

/-- The part of `DeterministicGuardrails` the graph calls. -/
structure Guardrails where
  policyVersion : String
  checkInput : String → Except RuntimeError Unit
  filterRetrieval : List RetrievedPassage →
    Except RuntimeError (List RetrievedPassage × List String)
  checkOutput : ImplementationProposal → Except RuntimeError (List String)

/-- What the constructor is given; each part may raise. -/
structure DeterministicAgentRuntime where
  provider : PlanningInput → Classification → List RetrievedPassage →
    Except RuntimeError ImplementationProposal
  retriever : String → Category → Except RuntimeError RetrievalBatch
  guardrails : Guardrails
  evaluationGate : ImplementationProposal → List Citation → List RetrievedPassage → List String →
    Except RuntimeError EvaluationGateResult
  /-- `str.lower` -/
  lower : String → String

/-- The channels; those a run may not have written yet are optional. -/
structure RuntimeState where
  planningInput : PlanningInput
  completedStates : List CompletedState
  classification : Option Classification := none
  modelPolicy : Option ModelPolicy := none
  citations : Option (List Citation) := none
  passages : Option (List RetrievedPassage) := none
  retrieval : Option RetrievalEvidence := none
  proposal : Option ImplementationProposal := none
  guardrails : Option GuardrailReport := none
  evaluation : Option EvaluationGateResult := none
  metrics : Option ExecutionMetrics := none

/-- Read a channel; one that was never written is a `KeyError`. -/
def channel {α : Type} (name : String) : Option α → Except RuntimeError α
  | some value => .ok value
  | none => .error (.other name)

namespace DeterministicAgentRuntime
variable (self : DeterministicAgentRuntime)

def validate (state : RuntimeState) : Except RuntimeError RuntimeState :=
  .ok { state with completedStates := state.completedStates ++ [.validated] }

def guardInput (state : RuntimeState) : Except RuntimeError RuntimeState := do
  self.guardrails.checkInput state.planningInput.request
  .ok { state with completedStates := state.completedStates ++ [.guarded] }

/-- `any(word in request for word in words)` -/
def containsAny (request : String) (words : List String) : Bool :=
  words.any fun word => word.toList <:+: request.toList

def classifyRequest (lowered : String) : Classification :=
  let category : Category :=
    if containsAny lowered ["security", "auth", "permission", "secret"] then .security
    else if containsAny lowered ["integrat", "api", "webhook", "provider"] then .integration
    else if containsAny lowered ["data", "database", "migration", "schema"] then .data
    else .general
  let highRisk := category = .security ∨ category = .data ∨ lowered.length > 300
  let mediumRisk := category = .integration ∨ lowered.length > 120
  { category
    complexity := if highRisk then .high else if mediumRisk then .medium else .low
    reason := "rules-v1 category, risk, and request-size policy" }

def classify (state : RuntimeState) : Except RuntimeError RuntimeState :=
  .ok { state with
    classification := some (classifyRequest (self.lower state.planningInput.request))
    completedStates := state.completedStates ++ [.classified] }

def buildContext (state : RuntimeState) : Except RuntimeError RuntimeState :=
  .ok { state with
    modelPolicy := some
      { reason := "Local mode requires reproducible zero-cost structured output." }
    completedStates := state.completedStates ++ [.contextBuilt] }

/-- The citation of a passage; the model's field rejects a score outside `[0, 1]`. -/
def citationOf (passage : RetrievedPassage) : Except RuntimeError Citation :=
  if 0 ≤ passage.relevanceScore ∧ passage.relevanceScore ≤ 1 then
    .ok
      { documentId := passage.document.documentId
        title := passage.document.title
        section_ := passage.document.section_
        version := passage.document.version
        excerptHash := passage.contentHash
        relevanceScore := passage.relevanceScore }
  else .error (.other "relevanceScore")

def retrieveLocalPolicy (state : RuntimeState) : Except RuntimeError RuntimeState := do
  let classification ← channel "classification" state.classification
  let batch ← self.retriever state.planningInput.request classification.category
  let (passages, quarantined) ← self.guardrails.filterRetrieval batch.passages
  let citations ← passages.mapM citationOf
  .ok { state with
    citations := some citations
    passages := some passages
    retrieval := some
      { corpusVersion := batch.corpusVersion
        selectedDocumentIds := passages.map fun item => item.document.documentId
        quarantinedDocumentIds := quarantined }
    completedStates := state.completedStates ++ [.knowledgeRetrieved] }

def planNode (state : RuntimeState) : Except RuntimeError RuntimeState := do
  let classification ← channel "classification" state.classification
  let passages ← channel "passages" state.passages
  let proposal ← self.provider state.planningInput classification passages
  let inputTokens := max 1 (state.planningInput.request.length / 4) +
    passages.foldl (fun tokens item => tokens + item.document.content.length / 4) 0
  let outputTokens := max 1 (proposal.summary.length / 4 + proposal.deliverySteps.length * 12)
  .ok { state with
    proposal := some proposal
    metrics := some { estimatedInputTokens := inputTokens, estimatedOutputTokens := outputTokens }
    completedStates := state.completedStates ++ [.planned] }

def evaluate (state : RuntimeState) : Except RuntimeError RuntimeState := do
  let proposal ← channel "proposal" state.proposal
  let outputPatterns ← self.guardrails.checkOutput proposal
  let citations ← channel "citations" state.citations
  let passages ← channel "passages" state.passages
  let evaluation ← self.evaluationGate proposal citations passages outputPatterns
  if evaluation.passed = false then
    .error (.evaluationGateBlocked evaluation)
  else
  let retrieval ← channel "retrieval" state.retrieval
  .ok { state with
    evaluation := some evaluation
    guardrails := some
      { policyVersion := self.guardrails.policyVersion
        retrievalOutcome := if retrieval.quarantinedDocumentIds = [] then .passed else .filtered }
    completedStates := state.completedStates ++ [.evaluated] }

/-- The nodes in the order of the edges from `START` to `END`, each with the
state it reports. -/
def nodes : List (CompletedState × (RuntimeState → Except RuntimeError RuntimeState)) :=
  [(.validated, validate), (.guarded, self.guardInput), (.classified, self.classify),
    (.contextBuilt, buildContext), (.knowledgeRetrieved, self.retrieveLocalPolicy),
    (.planned, self.planNode), (.evaluated, self.evaluate)]

/-- `invoke` on a thread whose checkpoint holds the channels `thread`. -/
def invoke (thread : RuntimeState) (planningInput : PlanningInput) :
    Except RuntimeError RuntimeState :=
  self.nodes.foldlM (fun state node => node.2 state)
    { thread with planningInput, completedStates := [] }

def plan (thread : RuntimeState) (planningInput : PlanningInput) :
    Except RuntimeError PlanningResult := do
  let output ← self.invoke thread planningInput
  let classification ← channel "classification" output.classification
  let modelPolicy ← channel "model_policy" output.modelPolicy
  let proposal ← channel "proposal" output.proposal
  let citations ← channel "citations" output.citations
  let retrieval ← channel "retrieval" output.retrieval
  let guardrails ← channel "guardrails" output.guardrails
  let evaluation ← channel "evaluation" output.evaluation
  let metrics ← channel "metrics" output.metrics
  .ok { classification, modelPolicy, proposal, citations, retrieval, guardrails, evaluation,
        metrics, completedStates := output.completedStates }

/-! ## The reported states -/

theorem bind_ok {α β : Type} {x : Except RuntimeError α} {f : α → Except RuntimeError β} {b : β}
    (h : (x >>= f) = .ok b) : ∃ a, x = .ok a ∧ f a = .ok b := by
  cases x with
  | error e => cases h
  | ok a => exact ⟨a, rfl, h⟩

/-- A node that succeeds appends its own state to the report, and only that. -/
theorem node_completedStates {name : CompletedState}
    {node : RuntimeState → Except RuntimeError RuntimeState} (h : (name, node) ∈ self.nodes)
    {state state' : RuntimeState} (hn : node state = .ok state') :
    state'.completedStates = state.completedStates ++ [name] := by
  simp only [nodes, List.mem_cons, Prod.mk.injEq, List.not_mem_nil, or_false] at h
  rcases h with ⟨rfl, rfl⟩ | ⟨rfl, rfl⟩ | ⟨rfl, rfl⟩ | ⟨rfl, rfl⟩ | ⟨rfl, rfl⟩ | ⟨rfl, rfl⟩ |
    ⟨rfl, rfl⟩
  · cases hn; rfl
  · obtain ⟨_, _, he⟩ := bind_ok hn
    cases he; rfl
  · cases hn; rfl
  · cases hn; rfl
  · iterate 3 obtain ⟨_, _, hn⟩ := bind_ok hn
    obtain ⟨_, _, he⟩ := bind_ok hn
    cases he; rfl
  · iterate 3 obtain ⟨_, _, hn⟩ := bind_ok hn
    cases hn; rfl
  · iterate 5 obtain ⟨_, _, hn⟩ := bind_ok hn
    split at hn
    · cases hn
    · obtain ⟨_, _, he⟩ := bind_ok hn
      cases he; rfl

theorem foldlM_completedStates :
    ∀ (rest : List (CompletedState × (RuntimeState → Except RuntimeError RuntimeState)))
      {state state' : RuntimeState}, rest ⊆ self.nodes →
      rest.foldlM (fun state node => node.2 state) state = .ok state' →
      state'.completedStates = state.completedStates ++ rest.map Prod.fst
  | [], _, _, _, h => by cases h; simp
  | node :: rest, state, state', hsub, h => by
    rw [List.foldlM_cons] at h
    obtain ⟨mid, hm, hr⟩ := bind_ok h
    have h1 := self.node_completedStates (hsub List.mem_cons_self) hm
    have h2 := foldlM_completedStates rest (fun x hx => hsub (.tail _ hx)) hr
    rw [h2, h1, List.map_cons, List.append_assoc, List.singleton_append]

/-- **The seven steps, exactly once and in order**, whatever the checkpoint of
the thread holds. -/
theorem plan_completedStates {thread : RuntimeState} {planningInput : PlanningInput}
    {result : PlanningResult} (h : self.plan thread planningInput = .ok result) :
    result.completedStates = [.validated, .guarded, .classified, .contextBuilt,
      .knowledgeRetrieved, .planned, .evaluated] := by
  obtain ⟨output, ho, h⟩ := bind_ok h
  have hs := self.foldlM_completedStates self.nodes (List.Subset.refl _) ho
  iterate 8 obtain ⟨_, _, h⟩ := bind_ok h
  cases h
  exact hs

/-! ## The graph as one computation -/

@[simp] theorem ok_bind {α β : Type} (a : α) (f : α → Except RuntimeError β) :
    ((Except.ok a : Except RuntimeError α) >>= f) = f a := rfl

@[simp] theorem error_bind {α β : Type} (e : RuntimeError) (f : α → Except RuntimeError β) :
    ((Except.error e : Except RuntimeError α) >>= f) = .error e := rfl

@[simp] theorem channel_some {α : Type} (name : String) (a : α) :
    channel name (some a) = .ok a := rfl

/-- The proposal of a request from the passages that the filter has kept. -/
def propose (planningInput : PlanningInput) (batch : RetrievalBatch) :
    Except RuntimeError PlanningResult := do
  let classification := classifyRequest (self.lower planningInput.request)
  let filtered ← self.guardrails.filterRetrieval batch.passages
  let citations ← filtered.1.mapM citationOf
  let proposal ← self.provider planningInput classification filtered.1
  let outputPatterns ← self.guardrails.checkOutput proposal
  let evaluation ← self.evaluationGate proposal citations filtered.1 outputPatterns
  if evaluation.passed = false then
    .error (.evaluationGateBlocked evaluation)
  else
  .ok
    { classification
      modelPolicy := { reason := "Local mode requires reproducible zero-cost structured output." }
      proposal
      citations
      retrieval :=
        { corpusVersion := batch.corpusVersion
          selectedDocumentIds := filtered.1.map fun item => item.document.documentId
          quarantinedDocumentIds := filtered.2 }
      guardrails :=
        { policyVersion := self.guardrails.policyVersion
          retrievalOutcome := if filtered.2 = [] then .passed else .filtered }
      evaluation
      metrics :=
        { estimatedInputTokens := max 1 (planningInput.request.length / 4) +
            filtered.1.foldl (fun tokens item => tokens + item.document.content.length / 4) 0
          estimatedOutputTokens :=
            max 1 (proposal.summary.length / 4 + proposal.deliverySteps.length * 12) }
      completedStates := [.validated, .guarded, .classified, .contextBuilt, .knowledgeRetrieved,
        .planned, .evaluated] }

/-- What the retriever finds for a request. -/
def batchFor (planningInput : PlanningInput) : Except RuntimeError RetrievalBatch :=
  self.retriever planningInput.request
    (classifyRequest (self.lower planningInput.request)).category

/-- **The graph as one computation**: a checked request, then a proposal; whatever
the checkpoint of the thread holds, every channel is overwritten before it is read. -/
theorem plan_eq (thread : RuntimeState) (planningInput : PlanningInput) :
    self.plan thread planningInput = (do
      self.guardrails.checkInput planningInput.request
      let batch ← self.batchFor planningInput
      self.propose planningInput batch) := by
  simp only [plan, invoke, nodes, List.foldlM_cons, List.foldlM_nil, validate, guardInput, ok_bind]
  cases self.guardrails.checkInput planningInput.request with
  | error e => simp only [error_bind]
  | ok u =>
    simp only [ok_bind, classify, buildContext, retrieveLocalPolicy, channel_some, batchFor]
    cases self.retriever planningInput.request
      (classifyRequest (self.lower planningInput.request)).category with
    | error e => simp only [error_bind]
    | ok batch =>
      simp only [ok_bind, propose]
      cases self.guardrails.filterRetrieval batch.passages with
      | error e => simp only [error_bind]
      | ok filtered =>
        simp only [ok_bind]
        cases filtered.1.mapM citationOf with
        | error e => simp only [error_bind]
        | ok citations =>
          simp only [ok_bind, planNode, channel_some]
          cases self.provider planningInput
            (classifyRequest (self.lower planningInput.request)) filtered.1 with
          | error e => simp only [error_bind]
          | ok proposal =>
            simp only [ok_bind, evaluate, channel_some]
            cases self.guardrails.checkOutput proposal with
            | error e => simp only [error_bind]
            | ok outputPatterns =>
              simp only [ok_bind]
              cases self.evaluationGate proposal citations filtered.1 outputPatterns with
              | error e => simp only [error_bind]
              | ok evaluation =>
                simp only [ok_bind]
                split
                · simp only [error_bind]
                · rfl

/-- What a returned plan has been through, with the passages that were left. -/
structure Returned (runtime : DeterministicAgentRuntime) (planningInput : PlanningInput)
    (passages : List RetrievedPassage) (result : PlanningResult) : Prop where
  checked : runtime.guardrails.checkInput planningInput.request = .ok ()
  classification : result.classification = classifyRequest (runtime.lower planningInput.request)
  retrieved : ∃ batch quarantined, runtime.batchFor planningInput = .ok batch ∧
    runtime.guardrails.filterRetrieval batch.passages = .ok (passages, quarantined)
  citations : passages.mapM citationOf = .ok result.citations
  proposal : runtime.provider planningInput result.classification passages = .ok result.proposal
  passed : ∃ outputPatterns evaluation,
    runtime.guardrails.checkOutput result.proposal = .ok outputPatterns ∧
    runtime.evaluationGate result.proposal result.citations passages outputPatterns =
      .ok evaluation ∧ evaluation.passed = true

theorem plan_returned {thread : RuntimeState} {planningInput : PlanningInput}
    {result : PlanningResult} (h : self.plan thread planningInput = .ok result) :
    ∃ passages, self.Returned planningInput passages result := by
  rw [plan_eq] at h
  obtain ⟨_, hin, h⟩ := bind_ok h
  obtain ⟨batch, hb, h⟩ := bind_ok h
  obtain ⟨filtered, hf, h⟩ := bind_ok h
  obtain ⟨citations, hc, h⟩ := bind_ok h
  obtain ⟨proposal, hp, h⟩ := bind_ok h
  obtain ⟨outputPatterns, ho, h⟩ := bind_ok h
  obtain ⟨evaluation, he, h⟩ := bind_ok h
  split at h
  · cases h
  · rename_i hpassed
    rw [Bool.not_eq_false] at hpassed
    cases h
    exact ⟨filtered.1, hin, rfl, ⟨batch, filtered.2, hb, hf⟩, hc, hp, outputPatterns, evaluation,
      ho, he, hpassed⟩

end DeterministicAgentRuntime

end AgenticDelivery.Runtime
