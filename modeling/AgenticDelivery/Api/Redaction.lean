import AgenticDelivery.Api.SensitiveValues

/-! # Redaction of telemetry

`redact_sensitive` of `operational.py`: the values of sensitive fields are replaced,
and in every other string the sensitive values. What it returns is clean, has the
shape of what it was given, and is redacted to itself. -/
namespace AgenticDelivery.Api
open AgenticDelivery.Data

/-- `SENSITIVE_FIELDS` -/
def sensitiveFields : List String :=
  ["authorization", "cookie", "credential", "idempotencykey", "password", "prompt", "request",
    "secret", "token"]

/-- A value of telemetry. The names of a mapping are of any type. -/
inductive Value (κ ν : Type)
  | mapping (items : List (κ × Value κ ν))
  | tuple (items : List (Value κ ν))
  | list (items : List (Value κ ν))
  | str (text : String)
  | number (n : ν)

variable (u : Unicode)

/-- `_normalized_field`, of the text of a name -/
def normalizedField (name : String) : String :=
  String.ofList ((u.lower name).toList.filter fun c => 'a' ≤ c && c ≤ 'z')

variable {κ ν : Type} (str : κ → String)

def isSensitive (name : κ) : Bool := sensitiveFields.contains (normalizedField u (str name))

mutual
/-- `redact_sensitive(value, field_name)` -/
def redactSensitive : Option κ → Value κ ν → Value κ ν
  | fieldName, value =>
    if fieldName.any (isSensitive u str) then .str redacted
    else match value with
      | .mapping items => .mapping (redactItems items)
      | .tuple items => .tuple (redactAll items)
      | .list items => .list (redactAll items)
      | .str text => .str (redactText u text)
      | .number n => .number n
def redactItems : List (κ × Value κ ν) → List (κ × Value κ ν)
  | [] => []
  | (key, item) :: rest => (key, redactSensitive (some key) item) :: redactItems rest
def redactAll : List (Value κ ν) → List (Value κ ν)
  | [] => []
  | item :: rest => redactSensitive none item :: redactAll rest
end

/-! ## Clean values -/

mutual
/-- What stands under a sensitive name is redacted, and no pattern matches another string. -/
def Clean : Value κ ν → Prop
  | .mapping items => CleanItems items
  | .tuple items => CleanAll items
  | .list items => CleanAll items
  | .str text => CleanText u text.toList
  | .number _ => True
def CleanItems : List (κ × Value κ ν) → Prop
  | [] => True
  | (key, item) :: rest =>
    (isSensitive u str key = true → item = .str redacted) ∧ Clean item ∧ CleanItems rest
def CleanAll : List (Value κ ν) → Prop
  | [] => True
  | item :: rest => Clean item ∧ CleanAll rest
end

mutual
/-- The same keys, lengths, kinds and numbers, except under sensitive names. -/
def SameShape : Value κ ν → Value κ ν → Prop
  | .mapping items, .mapping items' => SameItems items items'
  | .tuple items, .tuple items' => SameAll items items'
  | .list items, .list items' => SameAll items items'
  | .str _, .str _ => True
  | .number n, .number n' => n' = n
  | _, _ => False
def SameItems : List (κ × Value κ ν) → List (κ × Value κ ν) → Prop
  | [], [] => True
  | (key, item) :: rest, (key', item') :: rest' =>
    key' = key ∧ (isSensitive u str key = true ∨ SameShape item item') ∧ SameItems rest rest'
  | _, _ => False
def SameAll : List (Value κ ν) → List (Value κ ν) → Prop
  | [], [] => True
  | item :: rest, item' :: rest' => SameShape item item' ∧ SameAll rest rest'
  | _, _ => False
end

/-! ## What redaction returns -/

variable {u str}

theorem redactSensitive_of_sensitive {fieldName : Option κ}
    (h : fieldName.any (isSensitive u str) = true) (value : Value κ ν) :
    redactSensitive u str fieldName value = .str redacted := by
  unfold redactSensitive
  rw [if_pos h]

/-- Under another name, the name does not matter. -/
theorem redactSensitive_of_not_sensitive {fieldName : Option κ}
    (h : fieldName.any (isSensitive u str) = false) (value : Value κ ν) :
    redactSensitive u str fieldName value = redactSensitive u str none value := by
  unfold redactSensitive
  rw [if_neg (by simp [h]), if_neg (by simp)]

theorem redactSensitive_field (fieldName : Option κ) (value : Value κ ν) :
    redactSensitive u str fieldName value = .str redacted ∨
      redactSensitive u str fieldName value = redactSensitive u str none value := by
  cases h : fieldName.any (isSensitive u str) with
  | true => exact .inl (redactSensitive_of_sensitive h value)
  | false => exact .inr (redactSensitive_of_not_sensitive h value)

variable (u str)

@[simp] theorem redactSensitive_mapping (items : List (κ × Value κ ν)) :
    redactSensitive u str none (.mapping items) = .mapping (redactItems u str items) := by
  simp [redactSensitive]

@[simp] theorem redactSensitive_tuple (items : List (Value κ ν)) :
    redactSensitive u str none (.tuple items) = .tuple (redactAll u str items) := by
  simp [redactSensitive]

@[simp] theorem redactSensitive_list (items : List (Value κ ν)) :
    redactSensitive u str none (.list items) = .list (redactAll u str items) := by
  simp [redactSensitive]

@[simp] theorem redactSensitive_str (text : String) :
    redactSensitive u str none (.str text : Value κ ν) = .str (redactText u text) := by
  simp [redactSensitive]

@[simp] theorem redactSensitive_number (n : ν) :
    redactSensitive u str none (.number n : Value κ ν) = .number n := by
  simp [redactSensitive]

theorem clean_redacted : Clean u str (.str redacted : Value κ ν) := by
  unfold Clean
  exact cleanText_redacted u

mutual
theorem clean_redactSensitive (value : Value κ ν) :
    Clean u str (redactSensitive u str none value) := by
  cases value with
  | mapping items =>
    rw [redactSensitive_mapping, Clean]
    exact cleanItems_redactItems items
  | tuple items =>
    rw [redactSensitive_tuple, Clean]
    exact cleanAll_redactAll items
  | list items =>
    rw [redactSensitive_list, Clean]
    exact cleanAll_redactAll items
  | str text =>
    rw [redactSensitive_str, Clean]
    exact cleanText_redactText u text
  | number n =>
    rw [redactSensitive_number, Clean]
    trivial
theorem cleanItems_redactItems (items : List (κ × Value κ ν)) :
    CleanItems u str (redactItems u str items) := by
  match items with
  | [] =>
    rw [redactItems, CleanItems]
    trivial
  | (key, item) :: rest =>
    rw [redactItems, CleanItems]
    refine ⟨?_, ?_, cleanItems_redactItems rest⟩
    · intro h
      have hany : (some key).any (isSensitive u str) = true := h
      exact redactSensitive_of_sensitive hany item
    rcases redactSensitive_field (some key) item with h | h
    · rw [h]
      exact clean_redacted u str
    · rw [h]
      exact clean_redactSensitive item
theorem cleanAll_redactAll (items : List (Value κ ν)) :
    CleanAll u str (redactAll u str items) := by
  match items with
  | [] =>
    rw [redactAll, CleanAll]
    trivial
  | item :: rest =>
    rw [redactAll, CleanAll]
    exact ⟨clean_redactSensitive item, cleanAll_redactAll rest⟩
end

mutual
theorem sameShape_redactSensitive (value : Value κ ν) :
    SameShape u str value (redactSensitive u str none value) := by
  cases value with
  | mapping items =>
    rw [redactSensitive_mapping, SameShape]
    exact sameItems_redactItems items
  | tuple items =>
    rw [redactSensitive_tuple, SameShape]
    exact sameAll_redactAll items
  | list items =>
    rw [redactSensitive_list, SameShape]
    exact sameAll_redactAll items
  | str text =>
    rw [redactSensitive_str, SameShape]
    trivial
  | number n => rw [redactSensitive_number, SameShape]
theorem sameItems_redactItems (items : List (κ × Value κ ν)) :
    SameItems u str items (redactItems u str items) := by
  match items with
  | [] =>
    rw [redactItems, SameItems]
    trivial
  | (key, item) :: rest =>
    rw [redactItems, SameItems]
    refine ⟨rfl, ?_, sameItems_redactItems rest⟩
    cases h : isSensitive u str key with
    | true => exact .inl rfl
    | false =>
      have hany : (some key).any (isSensitive u str) = false := h
      rw [redactSensitive_of_not_sensitive hany]
      exact .inr (sameShape_redactSensitive item)
theorem sameAll_redactAll (items : List (Value κ ν)) :
    SameAll u str items (redactAll u str items) := by
  match items with
  | [] =>
    rw [redactAll, SameAll]
    trivial
  | item :: rest =>
    rw [redactAll, SameAll]
    exact ⟨sameShape_redactSensitive item, sameAll_redactAll rest⟩
end

/-! ## Redacting again -/

mutual
/-- A clean value is redacted to itself. -/
theorem redactSensitive_eq_self (value : Value κ ν) (h : Clean u str value) :
    redactSensitive u str none value = value := by
  cases value with
  | mapping items =>
    rw [Clean] at h
    rw [redactSensitive_mapping, redactItems_eq_self items h]
  | tuple items =>
    rw [Clean] at h
    rw [redactSensitive_tuple, redactAll_eq_self items h]
  | list items =>
    rw [Clean] at h
    rw [redactSensitive_list, redactAll_eq_self items h]
  | str text =>
    rw [Clean] at h
    rw [redactSensitive_str, redactText_eq_self u h]
  | number n => rw [redactSensitive_number]
theorem redactItems_eq_self (items : List (κ × Value κ ν)) (h : CleanItems u str items) :
    redactItems u str items = items := by
  match items with
  | [] => rw [redactItems]
  | (key, item) :: rest =>
    rw [CleanItems] at h
    obtain ⟨hsensitive, hitem, hrest⟩ := h
    rw [redactItems, redactItems_eq_self rest hrest]
    cases hs : isSensitive u str key with
    | true =>
      have hany : (some key).any (isSensitive u str) = true := hs
      rw [redactSensitive_of_sensitive hany, hsensitive hs]
    | false =>
      have hany : (some key).any (isSensitive u str) = false := hs
      rw [redactSensitive_of_not_sensitive hany, redactSensitive_eq_self item hitem]
theorem redactAll_eq_self (items : List (Value κ ν)) (h : CleanAll u str items) :
    redactAll u str items = items := by
  match items with
  | [] => rw [redactAll]
  | item :: rest =>
    rw [CleanAll] at h
    rw [redactAll, redactSensitive_eq_self item h.1, redactAll_eq_self rest h.2]
end

/-- **Redacted data is clean, keeps its shape and is stable.** -/
theorem redactSensitive_law (value : Value κ ν) :
    Clean u str (redactSensitive u str none value) ∧
      SameShape u str value (redactSensitive u str none value) ∧
      redactSensitive u str none (redactSensitive u str none value) =
        redactSensitive u str none value :=
  ⟨clean_redactSensitive u str value, sameShape_redactSensitive u str value,
    redactSensitive_eq_self u str _ (clean_redactSensitive u str value)⟩

end AgenticDelivery.Api
