import AgenticDelivery.Governance.Policy

/-! # More data, no less protection

A profile is below another when the other has at least its rank and all of its
prohibited categories. The decision on the higher profile is no weaker, and more
words or more declarations never lower a profile. -/
namespace AgenticDelivery.Governance
open AgenticDelivery.Data

/-- A decision with at least the protection of another. -/
structure PolicyDecision.NoWeaker (decision weaker : PolicyDecision) : Prop where
  classification :
    classificationOrder weaker.classification ≤ classificationOrder decision.classification
  denied : weaker.outcome = .deny → decision.outcome = .deny
  controlled : weaker.outcome = .permitWithControls → decision.outcome ≠ .permit
  obligations : weaker.obligations ⊆ decision.obligations
  allowed : decision.executionAllowed = true → weaker.executionAllowed = true
  retention : weaker.retentionPolicy = "restricted-30-days" →
    decision.retentionPolicy = "restricted-30-days"

/-- What the policy reads of a profile. -/
structure DataProfile.Below (lower upper : DataProfile) : Prop where
  rank : classificationOrder lower.classification ≤ classificationOrder upper.classification
  prohibited : ∀ category ∈ prohibitedIntake,
    category ∈ lower.categories → category ∈ upper.categories

/-! ## The decision -/

namespace BaselinePolicyEngine
variable {context : ProcessingContext} {lower upper : DataProfile}

theorem isSensitive_iff :
    isSensitive context = true ↔ 2 ≤ classificationOrder context.dataProfile.classification := by
  rw [isSensitive, decide_eq_true_eq]
  cases context.dataProfile.classification <;> decide

theorem isSensitive_below (h : lower.Below upper) :
    isSensitive { context with dataProfile := lower } = true →
      isSensitive { context with dataProfile := upper } = true := by
  rw [isSensitive_iff, isSensitive_iff]
  exact fun hs => hs.trans h.rank

theorem prohibited_below (h : lower.Below upper) :
    prohibited { context with dataProfile := lower } = true →
      prohibited { context with dataProfile := upper } = true := by
  simp only [prohibited, decide_eq_true_eq]
  intro ⟨hoperation, category, hp, hc⟩
  exact ⟨hoperation, category, hp, h.prohibited category hp hc⟩

theorem unapproved_below (h : lower.Below upper) :
    unapproved { context with dataProfile := lower } = true →
      unapproved { context with dataProfile := upper } = true := by
  simp only [unapproved, decide_eq_true_eq]
  intro ⟨hs, hprovider⟩
  exact ⟨isSensitive_below h hs, hprovider⟩

theorem outcome_eq (mode : EnforcementMode) : (evaluate mode context).outcome =
    if prohibited context || unapproved context then .deny
      else if isSensitive context then .permitWithControls else .permit := by
  show (if (prohibited context || unapproved context) = true then PolicyOutcome.deny
    else if 2 < (if isSensitive context then sensitiveObligations else baseObligations).length
      then .permitWithControls else .permit) = _
  cases isSensitive context <;> rfl

theorem outcome_deny_iff (mode : EnforcementMode) : (evaluate mode context).outcome = .deny ↔
    (prohibited context || unapproved context) = true := by
  rw [outcome_eq]
  cases prohibited context || unapproved context <;> cases isSensitive context <;> decide

theorem outcome_permit_iff (mode : EnforcementMode) : (evaluate mode context).outcome = .permit ↔
    (prohibited context || unapproved context) = false ∧ isSensitive context = false := by
  rw [outcome_eq]
  cases prohibited context || unapproved context <;> cases isSensitive context <;> decide

theorem retentionPolicy_iff (mode : EnforcementMode) :
    (evaluate mode context).retentionPolicy = "restricted-30-days" ↔
      isSensitive context = true := by
  show (if isSensitive context then "restricted-30-days" else "standard-90-days") = _ ↔ _
  cases isSensitive context <;> decide

theorem executionAllowed_iff (mode : EnforcementMode) :
    (evaluate mode context).executionAllowed = true ↔
      ((prohibited context || unapproved context) = true → mode ≠ .enforce) := by
  show (!(prohibited context || unapproved context) || decide (mode ≠ .enforce)) = true ↔ _
  cases prohibited context || unapproved context <;> simp

theorem baseObligations_subset : baseObligations ⊆ sensitiveObligations := by decide

/-- **The decision on a higher profile is no weaker.** -/
theorem evaluate_below (mode : EnforcementMode) (context : ProcessingContext)
    (h : lower.Below upper) :
    (evaluate mode { context with dataProfile := upper }).NoWeaker
      (evaluate mode { context with dataProfile := lower }) := by
  have hsensitive := @isSensitive_below context _ _ h
  have hdenied : (prohibited { context with dataProfile := lower } ||
        unapproved { context with dataProfile := lower }) = true →
      (prohibited { context with dataProfile := upper } ||
        unapproved { context with dataProfile := upper }) = true := by
    rw [Bool.or_eq_true, Bool.or_eq_true]
    exact Or.imp (prohibited_below h) (unapproved_below h)
  refine ⟨h.rank, ?_, ?_, ?_, ?_, ?_⟩
  · rw [outcome_deny_iff, outcome_deny_iff]
    exact hdenied
  · intro hc hp
    obtain ⟨hfree, hplain⟩ := (outcome_permit_iff mode).mp hp
    have hpermit : (evaluate mode { context with dataProfile := lower }).outcome = .permit := by
      rw [outcome_permit_iff, ← Bool.not_eq_true, ← Bool.not_eq_true]
      exact ⟨fun hd => Bool.false_ne_true (hfree.symm.trans (hdenied hd)),
        fun hs => Bool.false_ne_true (hplain.symm.trans (hsensitive hs))⟩
    rw [hpermit] at hc
    cases hc
  · show (if isSensitive { context with dataProfile := lower } then sensitiveObligations
        else baseObligations) ⊆
      if isSensitive { context with dataProfile := upper } then sensitiveObligations
        else baseObligations
    cases hl : isSensitive { context with dataProfile := lower } with
    | true =>
      rw [hsensitive hl]
      exact List.Subset.refl _
    | false =>
      cases isSensitive { context with dataProfile := upper } with
      | true => exact baseObligations_subset
      | false => exact List.Subset.refl _
  · rw [executionAllowed_iff, executionAllowed_iff]
    exact fun ha hd => ha (hdenied hd)
  · rw [retentionPolicy_iff, retentionPolicy_iff]
    exact hsensitive

end BaselinePolicyEngine

/-! ## The profile -/

/-- The rank of the highest is the least upper bound of the ranks. -/
theorem classificationOrder_highest_le {classifications : List DataClassification} {n : Nat} :
    classificationOrder (highest classifications) ≤ n ↔
      ∀ c ∈ classifications, classificationOrder c ≤ n := by
  have hfold (best : DataClassification) (l : List DataClassification) :
      classificationOrder (l.foldl (fun best c =>
          if classificationOrder best < classificationOrder c then c else best) best) ≤ n ↔
        classificationOrder best ≤ n ∧ ∀ c ∈ l, classificationOrder c ≤ n := by
    induction l generalizing best with
    | nil => simp
    | cons c l ih =>
      rw [List.foldl_cons, ih, List.forall_mem_cons, ← and_assoc]
      refine and_congr_left fun _ => ?_
      split <;> omega
  rw [highest, hfold]
  exact and_iff_right (Nat.zero_le n)

namespace DeterministicDataClassifier
variable {u : Unicode}

/-- More words match all that the fewer match. -/
theorem detected_embed (text before after : String) :
    detected u text ⊆ detected u (before ++ " " ++ text ++ " " ++ after) := by
  intro category hc
  obtain ⟨pattern, hm, hs⟩ := mem_detected_iff.mp hc
  have hjoin : " ".intercalate [before, text, after] =
      before ++ " " ++ text ++ " " ++ after := by
    simp only [String.intercalate_cons_cons, String.intercalate_singleton, String.append_assoc]
  have hsearch : u.search pattern (" ".intercalate [before, text, after]) = true :=
    Unicode.search_join (by simp) hs
  exact mem_detected_iff.mpr ⟨pattern, hm, hjoin ▸ hsearch⟩

/-- What is declared is among the categories of the profile. -/
theorem mem_categories_of_declared {text : String}
    {declaredCategories : Option (Finset DataCategory)} {category : DataCategory}
    (h : category ∈ declaredCategories.getD ∅) :
    category ∈ (classify u text declaredCategories).categories := by
  have hfound : category ∈ declaredCategories.getD ∅ ∪ (detected u text).toFinset :=
    Finset.mem_union_left _ h
  rw [classify]
  simp only [if_neg (Finset.ne_empty_of_mem hfound)]
  exact mem_sortedCategories.mpr hfound

/-- A category of a profile is declared, detected or the default. -/
theorem mem_categories {text : String} {declaredCategories : Option (Finset DataCategory)}
    {category : DataCategory} (h : category ∈ (classify u text declaredCategories).categories) :
    category ∈ declaredCategories.getD ∅ ∨ category ∈ detected u text ∨
      category = .generalContent := by
  rw [classify] at h
  dsimp only at h
  rw [mem_sortedCategories] at h
  split at h
  · exact .inr (.inr (Finset.mem_singleton.mp h))
  · rcases Finset.mem_union.mp h with h | h
    · exact .inl h
    · exact .inr (.inl (List.mem_toFinset.mp h))

/-- The rank of a profile bounds the ranks of its categories. -/
theorem classificationOrder_le {text : String} {declaredCategories : Option (Finset DataCategory)}
    {category : DataCategory} (h : category ∈ (classify u text declaredCategories).categories) :
    classificationOrder (classificationByCategory category) ≤
      classificationOrder (classify u text declaredCategories).classification :=
  classificationOrder_highest_le.mp (Nat.le_refl _) _ (List.mem_map_of_mem h)

/-- **More words and more declarations never lower a profile.** -/
theorem classify_below {text more : String} {declared further : Option (Finset DataCategory)}
    (ht : detected u text ⊆ detected u more) (hd : declared.getD ∅ ⊆ further.getD ∅) :
    (classify u text declared).Below (classify u more further) := by
  have hkept {category : DataCategory}
      (hc : category ∈ (classify u text declared).categories) :
      category ∈ (classify u more further).categories ∨ category = .generalContent := by
    rcases mem_categories hc with hc | hc | hc
    · exact .inl (mem_categories_of_declared (hd hc))
    · exact .inl (mem_categories_of_detected (ht hc))
    · exact .inr hc
  constructor
  · refine classificationOrder_highest_le.mpr fun c hc => ?_
    obtain ⟨category, hm, rfl⟩ := List.mem_map.mp hc
    rcases hkept hm with hm | rfl
    · exact classificationOrder_le hm
    · exact Nat.zero_le _
  · intro category hp hc
    rcases hkept hc with hm | rfl
    · exact hm
    · exact absurd hp (by decide)

/-- **Writing or declaring more never weakens the protection**, and the second
profile has every category that was detected or declared for the first. -/
theorem evaluate_embed (mode : EnforcementMode) (context : ProcessingContext)
    (text before after : String) {declared further : Option (Finset DataCategory)}
    (hd : declared.getD ∅ ⊆ further.getD ∅) :
    let lower := classify u text declared
    let upper := classify u (before ++ " " ++ text ++ " " ++ after) further
    (BaselinePolicyEngine.evaluate mode { context with dataProfile := upper }).NoWeaker
        (BaselinePolicyEngine.evaluate mode { context with dataProfile := lower }) ∧
      ∀ category, category ∈ detected u text ∨ category ∈ declared.getD ∅ →
        category ∈ upper.categories := by
  have ht := detected_embed (u := u) text before after
  refine ⟨BaselinePolicyEngine.evaluate_below mode context (classify_below ht hd), ?_⟩
  rintro category (hc | hc)
  · exact mem_categories_of_detected (ht hc)
  · exact mem_categories_of_declared (hd hc)

/-- ASCII, and nothing but letters beyond it. -/
def plainUnicode : Unicode where
  isAlnum c := c.isAlphanum || 128 ≤ c.toNat
  lower := id
  isAlnum_ascii c hc := by simp [Nat.not_le.mpr hc]

/-- The intake of a workflow through the local API. -/
def intakeContext : ProcessingContext where
  subjectId := "local-requester"
  purpose := .deliveryPlanning
  operation := .workflowIntake
  provider := "local-api"
  dataProfile := classify plainUnicode "" none

/-- A patient is still one in a longer text with a declaration. -/
theorem evaluate_embed_patient :
    let upper := classify plainUnicode ("The" ++ " " ++ "patient" ++ " " ++ "pays")
      (some {.contactInformation})
    (BaselinePolicyEngine.evaluate .enforce { intakeContext with dataProfile := upper }).NoWeaker
        (BaselinePolicyEngine.evaluate .enforce
          { intakeContext with dataProfile := classify plainUnicode "patient" none }) ∧
      .healthInformation ∈ upper.categories := by
  have hdetected : .healthInformation ∈ detected plainUnicode "patient" := by decide
  obtain ⟨hdecision, hcategories⟩ := @evaluate_embed plainUnicode .enforce intakeContext
    "patient" "The" "pays" none (some {.contactInformation}) (Finset.empty_subset _)
  exact ⟨hdecision, hcategories _ (.inl hdetected)⟩

end DeterministicDataClassifier

end AgenticDelivery.Governance
