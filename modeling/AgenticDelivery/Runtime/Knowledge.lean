import AgenticDelivery.Data.Pattern
import AgenticDelivery.Data.Ranking
import AgenticDelivery.Runtime.Graph
import Mathlib.Algebra.Field.Rat
import Mathlib.Algebra.Order.Field.Basic
import Mathlib.Algebra.Order.Ring.Rat
import Mathlib.Data.Finset.Card
import Mathlib.Data.String.Basic

/-! # The local knowledge

`LocalKnowledgeRetriever` ranks the documents of a corpus by the words they share
with the request, and returns the first ones. -/
namespace AgenticDelivery.Runtime
open AgenticDelivery.Data

/-- `LOCAL_CORPUS` -/
def localCorpus : List KnowledgeDocument :=
  [{ documentId := "delivery-quality-v1"
     title := "Delivery quality baseline"
     section_ := "quality-gates"
     version := "1.0.0"
     content := "Define explicit contracts, test failure modes, and retain reproducible evidence."
     tags := ["general", "quality", "delivery"] },
    { documentId := "integration-boundary-v1"
      title := "Integration boundary guide"
      section_ := "provider-adapters"
      version := "1.0.0"
      content := "Keep provider authentication, timeouts, retries, and error mapping " ++
        "behind a typed adapter."
      tags := ["integration", "api", "provider", "webhook"] },
    { documentId := "security-boundary-v1"
      title := "Security boundary guide"
      section_ := "trust-boundaries"
      version := "1.0.0"
      content :=
        "Threat-model identity, authorization, secrets, and every external trust boundary."
      tags := ["security", "auth", "permission", "secret"] },
    { documentId := "data-change-v1"
      title := "Data change guide"
      section_ := "migration-safety"
      version := "1.0.0"
      content := "Define schema compatibility, transactional consistency, rollback, " ++
        "and retention before migration."
      tags := ["data", "database", "schema", "migration"] }]

/-- `[a-z0-9]` -/
def isTokenChar (c : Char) : Bool := ('a' ≤ c && c ≤ 'z') || ('0' ≤ c && c ≤ '9')

/-- `set(TOKEN.findall(text))` for `[a-z0-9]{3,}`: the longest runs of at least three. -/
def tokens (text : String) : Finset String :=
  (((text.toList.splitOnP fun c => !isTokenChar c).filter fun run => 3 ≤ run.length).map
    String.ofList).toFinset

structure LocalKnowledgeRetriever where
  documents : List KnowledgeDocument := localCorpus
  corpusVersion : String := "local-delivery-corpus-v1"
  topK : Int := 2

/-- The score of a document for a request: shared words, and bonuses for its tags. -/
def rawScore (u : Unicode) (query : String) (category : Category) (document : KnowledgeDocument) :
    Nat :=
  let overlap := (tokens (u.lower query) ∩
    (tokens (u.lower document.content) ∪ document.tags.toFinset)).card
  let categoryBonus := if category.value ∈ document.tags then 3 else 0
  let generalBonus := if "general" ∈ document.tags then 1 else 0
  overlap + categoryBonus + generalBonus

/-- `min(1.0, round(raw_score / 5, 3))`; a multiple of a fifth has one decimal. -/
def relevance (raw : Nat) : ℚ := min 1 (raw / 5)

/-- The order of `(-relevance_score, document_id)`. -/
def Outranks (p q : RetrievedPassage) : Prop :=
  q.relevanceScore < p.relevanceScore ∨
    p.relevanceScore = q.relevanceScore ∧ p.document.documentId ≤ q.document.documentId

instance : DecidableRel Outranks := fun _ _ => inferInstanceAs (Decidable (_ ∨ _ ∧ _))

/-- The passages of the documents that score. -/
def ranked (u : Unicode) (query : String) (category : Category)
    (documents : List KnowledgeDocument) : List RetrievedPassage :=
  (documents.filter fun document => rawScore u query category document ≠ 0).map fun document =>
    { document, relevanceScore := relevance (rawScore u query category document) }

def LocalKnowledgeRetriever.retrieve (self : LocalKnowledgeRetriever) (u : Unicode)
    (query : String) (category : Category) : RetrievalBatch where
  corpusVersion := self.corpusVersion
  passages := top Outranks self.topK (ranked u query category self.documents)

/-! ## The ranking -/

instance : Std.Total Outranks where
  total p q := by
    rcases lt_trichotomy p.relevanceScore q.relevanceScore with h | h | h
    · exact .inr (.inl h)
    · rcases le_total p.document.documentId q.document.documentId with hid | hid
      · exact .inl (.inr ⟨h, hid⟩)
      · exact .inr (.inr ⟨h.symm, hid⟩)
    · exact .inl (.inl h)

instance : IsTrans RetrievedPassage Outranks where
  trans p q r hpq hqr := by
    rcases hpq with hpq | ⟨hpq, hid⟩
    · rcases hqr with hqr | ⟨hqr, -⟩
      · exact .inl (hqr.trans hpq)
      · exact .inl (hqr ▸ hpq)
    · rcases hqr with hqr | ⟨hqr, hid'⟩
      · exact .inl (hpq ▸ hqr)
      · exact .inr ⟨hpq.trans hqr, hid.trans hid'⟩

/-- Passages of one rank are of one document identifier. -/
theorem Outranks.documentId_eq {p q : RetrievedPassage} (h : Outranks p q) (h' : Outranks q p) :
    p.document.documentId = q.document.documentId := by
  rcases h with h | ⟨he, hid⟩
  · rcases h' with h' | ⟨he', -⟩
    · exact absurd h (lt_asymm h')
    · exact absurd h (he' ▸ lt_irrefl _)
  · rcases h' with h' | ⟨-, hid'⟩
    · exact absurd h' (he ▸ lt_irrefl _)
    · exact le_antisymm hid hid'

theorem passage_ext {p q : RetrievedPassage} (hd : p.document = q.document)
    (hs : p.relevanceScore = q.relevanceScore) : p = q := by
  obtain ⟨document, score⟩ := p
  subst hd
  subst hs
  rfl

theorem relevance_mem (raw : Nat) : 0 ≤ relevance raw ∧ relevance raw ≤ 1 := by
  have h : (0 : ℚ) ≤ raw / 5 := div_nonneg (Nat.cast_nonneg raw) (Nat.ofNat_nonneg 5)
  exact ⟨le_min zero_le_one h, min_le_left _ _⟩

theorem mem_ranked {u : Unicode} {query : String} {category : Category}
    {documents : List KnowledgeDocument} {p : RetrievedPassage} :
    p ∈ ranked u query category documents ↔ p.document ∈ documents ∧
      rawScore u query category p.document ≠ 0 ∧
      p.relevanceScore = relevance (rawScore u query category p.document) := by
  rw [ranked, List.mem_map]
  constructor
  · rintro ⟨document, hd, rfl⟩
    obtain ⟨hd, hs⟩ := List.mem_filter.mp hd
    exact ⟨hd, of_decide_eq_true hs, rfl⟩
  · rintro ⟨hd, hs, hr⟩
    exact ⟨p.document, List.mem_filter.mpr ⟨hd, decide_eq_true hs⟩, by rw [← hr]⟩

end AgenticDelivery.Runtime
