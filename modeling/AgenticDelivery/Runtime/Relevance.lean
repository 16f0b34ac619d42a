import AgenticDelivery.Runtime.Grounding
import AgenticDelivery.Runtime.Knowledge

/-! # The order of retrieval

Scores of five and more are one relevance. Up to this cap the retriever returns
the most relevant documents, whatever the order of the corpus. -/
namespace AgenticDelivery.Runtime
open AgenticDelivery.Data

/-- The score of a document, as far as it counts. -/
def cappedScore (u : Unicode) (query : String) (category : Category)
    (document : KnowledgeDocument) : Nat :=
  min (rawScore u query category document) 5

/-- By falling score, then by identifier. -/
def ByScore (score : KnowledgeDocument → Nat) (d e : KnowledgeDocument) : Prop :=
  score e < score d ∨ score d = score e ∧ d.documentId ≤ e.documentId

instance (score : KnowledgeDocument → Nat) : DecidableRel (ByScore score) :=
  fun _ _ => inferInstanceAs (Decidable (_ ∨ _ ∧ _))

/-- The documents with a score. -/
def scored (u : Unicode) (query : String) (category : Category)
    (documents : List KnowledgeDocument) : List KnowledgeDocument :=
  documents.filter fun document => rawScore u query category document ≠ 0

/-- The documents of what is retrieved. -/
def LocalKnowledgeRetriever.returned (self : LocalKnowledgeRetriever) (u : Unicode)
    (query : String) (category : Category) : List KnowledgeDocument :=
  (self.retrieve u query category).passages.map fun passage => passage.document

/-- What retrieval promises for the relevance `score`. -/
structure MostRelevant (score : KnowledgeDocument → Nat) (candidates : List KnowledgeDocument)
    (k : Nat) (returned : List KnowledgeDocument) : Prop where
  /-- They are the first `k` of the only way to sort the candidates. -/
  first : ∃ sorted, returned = sorted.take k ∧ ∀ other : List KnowledgeDocument,
    other = sorted ↔ other.Perm candidates ∧ other.Pairwise (ByScore score)
  falling : returned.Pairwise fun d e => score e ≤ score d
  leftOut : ∀ d ∈ candidates, d ∉ returned → ∀ e ∈ returned, score d ≤ score e

variable {u : Unicode} {query : String} {category : Category}
  {documents : List KnowledgeDocument} {d e : KnowledgeDocument}

/-! ## Relevance and capped score -/

theorem relevance_eq (raw : Nat) : relevance raw = ((min raw 5 : Nat) : ℚ) / 5 := by
  rw [relevance, Nat.cast_min, min_comm, Nat.cast_ofNat, ← min_div_div_right (by norm_num),
    div_self (by norm_num)]

/-- The passage of a document. -/
def passageOf (u : Unicode) (query : String) (category : Category)
    (document : KnowledgeDocument) : RetrievedPassage :=
  { document, relevanceScore := relevance (rawScore u query category document) }

theorem byScore_iff : ByScore (cappedScore u query category) d e ↔
    Outranks (passageOf u query category d) (passageOf u query category e) := by
  have hlt (m n : Nat) : (m : ℚ) / 5 < (n : ℚ) / 5 ↔ m < n := by
    rw [div_lt_div_iff_of_pos_right (by norm_num), Nat.cast_lt]
  have heq (m n : Nat) : (m : ℚ) / 5 = (n : ℚ) / 5 ↔ m = n := by
    rw [div_left_inj' (by norm_num), Nat.cast_inj]
  unfold ByScore Outranks passageOf cappedScore
  rw [relevance_eq, relevance_eq, hlt, heq]

instance : Std.Total (ByScore (cappedScore u query category)) where
  total d e := by
    rw [byScore_iff, byScore_iff]
    exact Std.Total.total _ _

instance : IsTrans KnowledgeDocument (ByScore (cappedScore u query category)) where
  trans d e f hde hef := by
    rw [byScore_iff] at hde hef ⊢
    exact IsTrans.trans _ _ _ hde hef

/-- Of a corpus with distinct identifiers every document is alone in its rank. -/
theorem alone_scored (hd : (documents.map fun document => document.documentId).Nodup) :
    ∀ d ∈ scored u query category documents,
      Alone (ByScore (cappedScore u query category)) (scored u query category documents) d := by
  intro d hd' e he hde hed
  rw [byScore_iff] at hde hed
  exact List.inj_on_of_nodup_map hd (List.mem_of_mem_filter he) (List.mem_of_mem_filter hd')
    (hed.documentId_eq hde)

/-- The retriever ranks the documents by capped score. -/
theorem retrieve_passages (self : LocalKnowledgeRetriever) :
    (self.retrieve u query category).passages =
      (top (ByScore (cappedScore u query category)) self.topK
        (scored u query category self.documents)).map (passageOf u query category) := by
  have hsort := List.map_insertionSort (ByScore (cappedScore u query category)) Outranks
    (passageOf u query category) (scored u query category self.documents)
    fun d _ e _ => byScore_iff
  rw [top, map_sliceTo, hsort]
  rfl

theorem returned_eq (self : LocalKnowledgeRetriever) :
    self.returned u query category = top (ByScore (cappedScore u query category)) self.topK
      (scored u query category self.documents) := by
  rw [LocalKnowledgeRetriever.returned, retrieve_passages, List.map_map]
  exact List.map_id _

/-- **Retrieval returns the most relevant documents**, for a relevance that ends at five,
and the order of the corpus does not matter. -/
theorem retrieve_mostRelevant (u : Unicode) (self : LocalKnowledgeRetriever) (query : String)
    (category : Category) {k : Nat} (hk : self.topK = k)
    (hd : (self.documents.map fun document => document.documentId).Nodup) :
    MostRelevant (cappedScore u query category) (scored u query category self.documents) k
        (self.returned u query category) ∧
      ∀ documents, documents.Perm self.documents →
        { self with documents }.retrieve u query category = self.retrieve u query category := by
  have halone := @alone_scored u query category self.documents hd
  have hrank {d e : KnowledgeDocument} (h : ByScore (cappedScore u query category) d e) :
      cappedScore u query category e ≤ cappedScore u query category d := by
    rcases h with h | ⟨h, -⟩
    · exact Nat.le_of_lt h
    · exact Nat.le_of_eq h.symm
  have hfirst : self.returned u query category = ((scored u query category
      self.documents).insertionSort (ByScore (cappedScore u query category))).take k := by
    rw [returned_eq, hk, top, sliceTo_natCast]
  refine ⟨⟨⟨_, hfirst, fun other => ⟨?_, ?_⟩⟩, ?_, ?_⟩, ?_⟩
  · rintro rfl
    exact ⟨List.perm_insertionSort _ _, List.pairwise_insertionSort _ _⟩
  · rintro ⟨hp, hs⟩
    exact eq_insertionSort halone hp hs
  · rw [returned_eq]
    exact top_pairwise.imp hrank
  · intro d hm hcut e he
    rw [returned_eq] at hcut he
    exact hrank (le_of_mem_top he hm hcut)
  · intro documents hp
    have hscored : (scored u query category documents).Perm
        (scored u query category self.documents) := hp.filter _
    have hpassages : ({ self with documents }.retrieve u query category).passages =
        (self.retrieve u query category).passages := by
      rw [retrieve_passages, retrieve_passages, top_perm halone hscored]
    exact congrArg (RetrievalBatch.mk self.corpusVersion) hpassages

def changeGuide : KnowledgeDocument := ⟨"change", "Change", "a", "1", "test", ["data", "general"]⟩

/-- It shares one more word with a plan. -/
def rolloutGuide : KnowledgeDocument :=
  ⟨"rollout", "Rollout", "b", "1", "plan", ["data", "general"]⟩

def dataGuides : LocalKnowledgeRetriever where
  documents := [changeGuide, rolloutGuide]
  topK := 1

theorem nodup_dataGuides :
    (dataGuides.documents.map fun document => document.documentId).Nodup := by decide

/-- By capped score the retriever is right. -/
theorem retrieve_mostRelevant_dataGuides :
    MostRelevant (cappedScore asciiUnicode "data plan" .data)
      (scored asciiUnicode "data plan" .data dataGuides.documents) 1
      (dataGuides.returned asciiUnicode "data plan" .data) :=
  (retrieve_mostRelevant asciiUnicode dataGuides "data plan" .data rfl nodup_dataGuides).1

/-- By score it is not: six is no more than five, and the document that fits better is
left out. -/
theorem dataGuides_not_mostRelevant :
    (dataGuides.documents.map fun document => document.documentId).Nodup ∧
      ¬MostRelevant (rawScore asciiUnicode "data plan" .data)
        (scored asciiUnicode "data plan" .data dataGuides.documents) 1
        (dataGuides.returned asciiUnicode "data plan" .data) := by
  refine ⟨nodup_dataGuides, fun h => ?_⟩
  have hchange : rawScore asciiUnicode "data plan" .data changeGuide = 5 := by decide +kernel
  have hrollout : rawScore asciiUnicode "data plan" .data rolloutGuide = 6 := by decide +kernel
  have hreturned : dataGuides.returned asciiUnicode "data plan" .data = [changeGuide] := by
    decide +kernel
  have hin : rolloutGuide ∈ scored asciiUnicode "data plan" .data dataGuides.documents :=
    List.mem_filter.mpr ⟨.tail _ (.head _), by rw [hrollout]; rfl⟩
  have hout : rolloutGuide ∉ dataGuides.returned asciiUnicode "data plan" .data := by
    rw [hreturned]
    decide
  have hle := h.leftOut rolloutGuide hin hout changeGuide (by rw [hreturned]; exact .head _)
  rw [hchange, hrollout] at hle
  omega

end AgenticDelivery.Runtime
