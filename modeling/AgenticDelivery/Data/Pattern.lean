import AgenticDelivery.Data.Regex

/-! # Patterns over strings

The part of `re.compile(..., re.IGNORECASE)` that the guardrails and the
classifier use. Which characters outside ASCII are alphanumeric is left to
Unicode. -/
namespace AgenticDelivery.Data

/-- What `str` knows of Unicode. -/
structure Unicode where
  /-- `str.isalnum` of one character -/
  isAlnum : Char → Bool
  /-- `str.lower` -/
  lower : String → String
  isAlnum_ascii : ∀ c : Char, c.toNat < 128 → isAlnum c = c.isAlphanum

/-- `\w` -/
def Unicode.isWord (u : Unicode) (c : Char) : Bool := u.isAlnum c || c == '_'

/-- A lower-case ASCII character, a digit or a space of a pattern under
`re.IGNORECASE`: besides the case of ASCII, `i` takes `İ` and `ı`, `s` takes `ſ`
and `k` takes the Kelvin sign. -/
def ignoreCase (c d : Char) : Bool :=
  d.toLower == c || (c == 'i' && (d.toNat == 0x130 || d.toNat == 0x131)) ||
    (c == 's' && d.toNat == 0x17f) || (c == 'k' && d.toNat == 0x212a)

/-- `.` -/
def anyButNewline (c : Char) : Bool := c != '\n'

/-- The characters of a pattern that stand for themselves. -/
def letters (text : String) : List (Char → Bool) := text.toList.map ignoreCase

def phrase (text : String) : Regex Char := .literal (letters text)

/-- `a|b|…` of phrases -/
def phrases (texts : List String) : Regex Char := .oneOf (texts.map phrase)

/-- `pattern.search(text) is not None` -/
def Unicode.search (u : Unicode) (pattern : Regex Char) (text : String) : Bool :=
  pattern.search u.isWord text.toList

theorem Unicode.search_iff {u : Unicode} {pattern : Regex Char} {text : String} :
    u.search pattern text = true ↔ pattern.Occurs u.isWord text.toList := Regex.search_iff

/-- `\w`, in ASCII -/
def asciiWord (c : Char) : Bool := c.isAlphanum || c == '_'

theorem isAlphanum_iff {c : Char} : c.isAlphanum = true ↔ (65 ≤ c.toNat ∧ c.toNat ≤ 90) ∨
    (97 ≤ c.toNat ∧ c.toNat ≤ 122) ∨ (48 ≤ c.toNat ∧ c.toNat ≤ 57) := by
  show ((decide (c.val ≥ 'A'.val ∧ c.val ≤ 'Z'.val) ||
    (decide (c.val ≥ 'a'.val) && decide (c.val ≤ 'z'.val))) ||
    (decide (c.val ≥ '0'.val) && decide (c.val ≤ '9'.val))) = true ↔ _
  simp only [Bool.or_eq_true, Bool.and_eq_true, decide_eq_true_eq, UInt32.le_iff_toNat_le,
    ge_iff_le]
  exact or_assoc

theorem Unicode.isWord_ascii (u : Unicode) {c : Char} (h : c.toNat < 128) :
    u.isWord c = asciiWord c := by
  rw [isWord, asciiWord, u.isAlnum_ascii c h]

/-- What an ASCII text matches can be computed without Unicode. -/
theorem Unicode.search_ascii (u : Unicode) (pattern : Regex Char) {text : String}
    (h : ∀ c ∈ text.toList, c.toNat < 128) :
    u.search pattern text = pattern.search asciiWord text.toList := by
  rw [Bool.eq_iff_iff, Unicode.search_iff, Regex.search_iff]
  exact ⟨Regex.Occurs.congr fun c hc => u.isWord_ascii (h c hc),
    Regex.Occurs.congr fun c hc => (u.isWord_ascii (h c hc)).symm⟩

/-! ## Joined texts -/

/-- What matches a part matches the parts joined with spaces. -/
theorem Unicode.search_join {u : Unicode} {pattern : Regex Char} {part : String}
    {parts : List String} (hp : part ∈ parts) (h : u.search pattern part = true) :
    u.search pattern (" ".intercalate parts) = true := by
  rw [Unicode.search_iff] at h ⊢
  rw [String.toList_intercalate]
  have hs : u.isWord ' ' = false := by
    rw [u.isWord_ascii (by decide)]
    decide
  induction parts with
  | nil => cases hp
  | cons first rest ih =>
    by_cases hr : rest = []
    · subst hr
      rw [List.mem_singleton.mp hp] at h
      rwa [List.map_singleton, List.intercalate_singleton]
    · rw [List.map_cons, List.intercalate_cons_of_ne_nil (by simpa using hr)]
      have hsep : " ".toList = [' '] := rfl
      rw [hsep] at ih ⊢
      rcases List.mem_cons.mp hp with rfl | hp
      · rw [List.append_assoc]
        exact h.embed [] _ rfl hs
      · have hleft : Regex.wordBefore u.isWord false (first.toList ++ [' ']) = false := by
          rw [Regex.wordBefore_append]
          exact hs
        have := (ih hp).embed _ [] hleft rfl
        rwa [List.append_nil] at this

/-! ## Walls -/

/-- No match of a pattern with one of these phrases reaches into the wall. -/
def bars (texts : List String) (wall : List Char) : Bool :=
  texts.all fun text => Regex.barred (letters text) wall

theorem bars_subset {texts some : List String} {wall : List Char} (h : bars texts wall = true)
    (hs : some ⊆ texts) : bars some wall = true :=
  List.all_eq_true.mpr fun text ht => List.all_eq_true.mp h text (hs ht)

theorem clear_phrases {word : Char → Bool} {texts : List String} {wall : List Char}
    (h : bars texts wall = true) : Regex.Clear word (phrases texts) wall := by
  refine Regex.Clear.oneOf fun r hr => ?_
  obtain ⟨text, ht, rfl⟩ := List.mem_map.mp hr
  exact Regex.Clear.literal (List.all_eq_true.mp h text ht)

theorem solid_phrases {word : Char → Bool} {texts : List String} (h : "" ∉ texts) :
    Regex.Solid word (phrases texts) := by
  refine Regex.Solid.oneOf fun r hr => ?_
  obtain ⟨text, ht, rfl⟩ := List.mem_map.mp hr
  refine Regex.Solid.literal fun hnil => h ?_
  rw [letters, List.map_eq_nil_iff, String.toList_eq_nil_iff] at hnil
  exact hnil ▸ ht

/-- An ASCII character outside `\w`. -/
def isOutside (c : Char) : Bool := c.toNat < 128 && !asciiWord c

theorem Unicode.isWord_outside (u : Unicode) {c : Char} (h : isOutside c = true) :
    u.isWord c = false := by
  rw [isOutside, Bool.and_eq_true, decide_eq_true_eq, Bool.not_eq_true'] at h
  rw [u.isWord_ascii h.1, h.2]

theorem beginsOutside_of_any (u : Unicode) {text : List Char}
    (h : text.head?.any isOutside = true) : Regex.BeginsOutside u.isWord text := by
  obtain ⟨c, hc, hout⟩ := (Option.any_eq_true ..).mp h
  exact Regex.beginsOutside_of_head? hc (u.isWord_outside hout)

theorem endsOutside_of_any (u : Unicode) {text : List Char}
    (h : text.getLast?.any isOutside = true) : Regex.EndsOutside u.isWord text := by
  obtain ⟨c, hc, hout⟩ := (Option.any_eq_true ..).mp h
  exact Regex.endsOutside_of_getLast? hc (u.isWord_outside hout)

end AgenticDelivery.Data
