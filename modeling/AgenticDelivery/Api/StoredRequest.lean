import AgenticDelivery.Api.Intake
import AgenticDelivery.Data.Words

/-! # The stored request

The published contract bounds the length of the text that a client sends. The
service stores the text collapsed and stripped, which may be shorter. -/
namespace AgenticDelivery.Api
open AgenticDelivery.Atomic AgenticDelivery.Data AgenticDelivery.Governance AgenticDelivery.Runtime

variable {env : Environment} {c : PoolConfig}

/-- An accepted `DataContextRequest`. -/
structure DataContextRequest where
  declaredCategories : Finset DataCategory := ∅
  purpose : ProcessingPurpose := .deliveryPlanning
  jurisdiction : String := "US"
  overlayIds : List String := ["common-us-baseline"]
  jurisdiction_length : 2 ≤ jurisdiction.length ∧ jurisdiction.length ≤ 35 := by decide
  /-- `pattern=r"^[A-Z-]+$"` -/
  jurisdiction_pattern : (jurisdiction.toList.all fun c => c.isUpper || c == '-') = true := by
    decide
  overlayIds_length : 1 ≤ overlayIds.length := by decide

/-- An accepted `CreateServiceRequest`. -/
structure CreateServiceRequest where
  request : String
  requestedLocale : String := "en"
  dataContext : DataContextRequest := {}
  request_length : 10 ≤ request.length ∧ request.length ≤ 10000
  requestedLocale_length : requestedLocale.length ≤ 35 := by decide

/-- The arguments the endpoint `create_service_request` passes on. -/
def CreateServiceRequest.arguments (payload : CreateServiceRequest) (principal : Principal)
    (idempotencyKey correlationId : String) : CreateRequest :=
  { principal
    request := payload.request
    requestedLocale := payload.requestedLocale
    idempotencyKey
    correlationId
    declaredCategories := some payload.dataContext.declaredCategories
    purpose := payload.dataContext.purpose
    jurisdiction := payload.dataContext.jurisdiction
    overlayIds := payload.dataContext.overlayIds }

/-- What the input contract promises of a request that is stored. -/
structure Published (text : String) : Prop where
  min_length : 10 ≤ text.length
  max_length : text.length ≤ 10000
  spaced : SingleSpaced text.toList
  normalized : normalizeRequest text = text

/-- The text has ten characters that are not white space, where white space between
two words counts as one of them. -/
def LongEnough (text : String) : Prop :=
  10 ≤ inked text.toList + ((words text.toList).length - 1)

instance (text : String) : Decidable (LongEnough text) := inferInstanceAs (Decidable (10 ≤ _))

/-! ## Normalised texts -/

theorem toList_normalizeRequest (text : String) :
    (normalizeRequest text).toList = unwords (words text.toList) := by
  rw [normalizeRequest, String.toList_ofList, strip_collapseSpaces]

theorem length_normalizeRequest (text : String) :
    (normalizeRequest text).length = inked text.toList + ((words text.toList).length - 1) := by
  rw [normalizeRequest, String.length_ofList, length_strip_collapseSpaces]

theorem length_normalizeRequest_le (text : String) :
    (normalizeRequest text).length ≤ text.length := by
  rw [normalizeRequest, String.length_ofList, ← String.length_toList]
  calc (strip (collapseSpaces false text.toList)).length
      ≤ (collapseSpaces false text.toList).length := by
        rw [strip]
        exact (List.rdropWhile_prefix ..).length_le.trans (List.dropWhile_suffix ..).length_le
    _ ≤ text.toList.length := length_collapseSpaces_le false text.toList

theorem singleSpaced_normalizeRequest (text : String) :
    SingleSpaced (normalizeRequest text).toList := by
  rw [toList_normalizeRequest]
  exact singleSpaced_unwords fun w hw => isWord_of_mem_words hw

theorem normalizeRequest_idem (text : String) :
    normalizeRequest (normalizeRequest text) = normalizeRequest text := by
  apply String.toList_injective
  rw [toList_normalizeRequest, toList_normalizeRequest,
    words_unwords fun w hw => isWord_of_mem_words hw]

/-- Of a text that is not too long, everything that was promised but the least length. -/
theorem published_normalizeRequest_iff {text : String} (h : text.length ≤ 10000) :
    Published (normalizeRequest text) ↔ LongEnough text := by
  rw [LongEnough, ← length_normalizeRequest]
  constructor
  · exact fun hp => hp.min_length
  · exact fun hmin => ⟨hmin, (length_normalizeRequest_le text).trans h,
      singleSpaced_normalizeRequest text, normalizeRequest_idem text⟩

/-! ## Stored requests -/

/-- A step of a `create` call that stores a workflow stores the normalised text. -/
theorem Reachable.request_of_stored (hf : Function.Injective env.idFactory) (h : Reachable env c)
    {tid : Nat} {t : Caller} {r : CreateRequest} (ht : c.threads[tid]? = some t)
    (hcall : t.call = .create r) {id : String} {w : Workflow} (hnew : c.state.stored id = none)
    (hw : ((system env).step c (.act tid)).state.stored id = some w) :
    w.request = normalizeRequest r.request := by
  cases hr : t.rest with
  | done value =>
    simp only [System.step, ht, hr] at hw
    cases hnew.symm.trans hw
  | raise error =>
    simp only [System.step, ht, hr] at hw
    cases hnew.symm.trans hw
  | call op next =>
    rw [System.step_act ht hr] at hw
    change (exec env tid op c.state).2.stored id = some w at hw
    rcases h.create_step hf ht hcall hr with he | ⟨id', now, -, -, he⟩
    · rw [State.stored, he] at hw
      cases hnew.symm.trans hw
    · rw [he, insert_stored] at hw
      split at hw
      · cases hw
        rfl
      · cases hnew.symm.trans hw

/-- **The request that `create` stores honours the contract exactly when the sent
text is long enough without its superfluous white space.** -/
theorem published_iff_longEnough (hf : Function.Injective env.idFactory) (h : Reachable env c)
    {tid : Nat} {t : Caller} {payload : CreateServiceRequest} {principal : Principal}
    {idempotencyKey correlationId : String} (ht : c.threads[tid]? = some t)
    (hcall : t.call = .create (payload.arguments principal idempotencyKey correlationId))
    {id : String} {w : Workflow} (hnew : c.state.stored id = none)
    (hw : ((system env).step c (.act tid)).state.stored id = some w) :
    Published w.request ↔ LongEnough payload.request := by
  rw [h.request_of_stored hf ht hcall hnew hw]
  exact published_normalizeRequest_iff payload.request_length.2

/-- Caller 0 creates a workflow for the payload, up to the step that stores it. -/
def beforeStored (payload : CreateServiceRequest) : PoolConfig :=
  (system sampleEnv).play (initial 0 0)
    (moves 0 (.create (payload.arguments localRequester "key-1" "c-1")) 5)

/-- A request that is long enough, with some white space too many. -/
def spacedPayload : CreateServiceRequest where
  request := "Prepare  a\tplan "
  request_length := by decide

theorem published_spacedPayload :
    ∃ w, ((system sampleEnv).step (beforeStored spacedPayload) (.act 0)).state.stored "w" =
      some w ∧ Published w.request := by
  have h : ((beforeStored spacedPayload).threads[0]?.bind fun t =>
      (((system sampleEnv).step (beforeStored spacedPayload) (.act 0)).state.stored "w").map
        fun _ => decide (t.call =
            .create (spacedPayload.arguments localRequester "key-1" "c-1") ∧
          (beforeStored spacedPayload).state.stored "w" = none ∧
          LongEnough spacedPayload.request)) = some true := by decide
  obtain ⟨t, ht, h⟩ := Option.bind_eq_some_iff.mp h
  obtain ⟨w, hw, h⟩ := Option.map_eq_some_iff.mp h
  obtain ⟨hcall, hnew, hlong⟩ := of_decide_eq_true h
  exact ⟨w, hw, (published_iff_longEnough sampleId_injective (reachable_play sampleEnv 0 0 _) ht
    hcall hnew hw).mpr hlong⟩

/-- Two letters with white space between them, eleven characters together. -/
def blankPayload : CreateServiceRequest where
  request := "a         b"
  request_length := by decide

/-- The payload is accepted, and a request of three characters is stored. -/
theorem blankPayload_not_published :
    ∃ t w, (beforeStored blankPayload).threads[0]? = some t ∧
      t.call = .create (blankPayload.arguments localRequester "key-1" "c-1") ∧
      (beforeStored blankPayload).state.stored "w" = none ∧
      ((system sampleEnv).step (beforeStored blankPayload) (.act 0)).state.stored "w" = some w ∧
      w.request = "a b" ∧ ¬Published w.request := by
  have h : ((beforeStored blankPayload).threads[0]?.bind fun t =>
      (((system sampleEnv).step (beforeStored blankPayload) (.act 0)).state.stored "w").map
        fun w => decide (t.call =
            .create (blankPayload.arguments localRequester "key-1" "c-1") ∧
          (beforeStored blankPayload).state.stored "w" = none ∧ w.request = "a b")) =
      some true := by decide
  obtain ⟨t, ht, h⟩ := Option.bind_eq_some_iff.mp h
  obtain ⟨w, hw, h⟩ := Option.map_eq_some_iff.mp h
  obtain ⟨hcall, hnew, hreq⟩ := of_decide_eq_true h
  refine ⟨t, w, ht, hcall, hnew, hw, hreq, fun hp => ?_⟩
  have hmin : 10 ≤ w.request.length := hp.min_length
  rw [hreq] at hmin
  exact absurd hmin (by decide)

end AgenticDelivery.Api
