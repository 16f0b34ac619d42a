import AgenticDelivery.Data.Text
import Mathlib.Data.List.Chain

/-! # Words of a text

The words of a text are its longest parts without white space. A text that is
collapsed and stripped consists of the same words, with one space between two of
them, and has no other white space. -/
namespace AgenticDelivery.Data

/-- `text.split()` -/
def words (text : List Char) : List (List Char) := (text.splitOnP isSpace).filter (· ≠ [])

/-- `" ".join(ws)` -/
def unwords (ws : List (List Char)) : List Char := [' '].intercalate ws

/-- What a word is: some characters, none of them white space. -/
def IsWord (w : List Char) : Prop := w ≠ [] ∧ ∀ c ∈ w, isSpace c = false

variable {c : Char} {text : List Char}

/-! ## Words, from the front -/

@[simp] theorem words_nil : words [] = [] := by simp [words]

theorem words_space (hc : isSpace c = true) : words (c :: text) = words text := by
  simp [words, List.splitOnP_cons_eq_if_modifyHead, hc]

/-- A character in front of white space is a word of its own. -/
theorem words_alone (hc : isSpace c = false) {d : Char} (hd : isSpace d = true) :
    words (c :: d :: text) = [c] :: words text := by
  simp [words, List.splitOnP_cons_eq_if_modifyHead, hc, hd]

theorem words_singleton (hc : isSpace c = false) : words [c] = [[c]] := by
  simp [words, List.splitOnP_cons_eq_if_modifyHead, hc]

/-- A character in front of a word belongs to it. -/
theorem words_joined (text : List Char) {c d : Char} (hc : isSpace c = false)
    (hd : isSpace d = false) :
    ∃ w ws, words (d :: text) = w :: ws ∧ words (c :: d :: text) = (c :: w) :: ws := by
  obtain ⟨w, ws, h⟩ := List.exists_cons_of_ne_nil (List.splitOnP_ne_nil isSpace text)
  refine ⟨d :: w, ws.filter (· ≠ []), ?_, ?_⟩ <;>
    simp [words, List.splitOnP_cons_eq_if_modifyHead, hc, hd, h]

theorem isWord_of_mem_words {w : List Char} (h : w ∈ words text) : IsWord w := by
  induction text generalizing w with
  | nil => simp at h
  | cons c text ih =>
    cases hc : isSpace c with
    | true => exact ih (words_space hc ▸ h)
    | false =>
      have halone : IsWord [c] := ⟨nofun, by simp [hc]⟩
      cases text with
      | nil =>
        rw [words_singleton hc, List.mem_singleton] at h
        exact h ▸ halone
      | cons d rest =>
        cases hd : isSpace d with
        | true =>
          rw [words_alone hc hd, List.mem_cons] at h
          rcases h with rfl | h
          · exact halone
          · exact ih ((words_space hd).symm ▸ h)
        | false =>
          obtain ⟨v, vs, hv, hcv⟩ := words_joined rest hc hd
          rw [hcv, List.mem_cons] at h
          rcases h with rfl | h
          · obtain ⟨-, hs⟩ := ih (hv ▸ List.mem_cons_self)
            exact ⟨nofun, List.forall_mem_cons.mpr ⟨hc, hs⟩⟩
          · exact ih (hv ▸ List.mem_cons_of_mem _ h)

/-- A word in front of a text, with a space between them. -/
theorem words_append {w : List Char} (hw : IsWord w) :
    words (w ++ ' ' :: text) = w :: words text := by
  rw [words, List.splitOnP_append_cons_of_forall_mem hw.2 ' ' (by decide), List.filter_cons_of_pos]
  · rfl
  · simpa using hw.1

/-! ## Words and the collapsed text -/

theorem unwords_cons (w : List Char) {ws : List (List Char)} (h : ws ≠ []) :
    unwords (w :: ws) = w ++ ' ' :: unwords ws := by
  rw [unwords, List.intercalate_cons_of_ne_nil h]
  simp [unwords]

@[simp] theorem unwords_singleton (w : List Char) : unwords [w] = w :=
  List.intercalate_singleton

theorem rdropWhile_cons_of_not (hc : isSpace c = false) :
    (c :: text).rdropWhile isSpace = c :: text.rdropWhile isSpace := by
  induction text using List.reverseRecOn with
  | nil => simp [List.rdropWhile_singleton, hc]
  | append_singleton rest d ih =>
    rw [← List.cons_append, List.rdropWhile_concat, List.rdropWhile_concat]
    split
    · exact ih
    · rfl

theorem rdropWhile_cons_of_ne_nil (h : text.rdropWhile isSpace ≠ []) :
    (c :: text).rdropWhile isSpace = c :: text.rdropWhile isSpace := by
  induction text using List.reverseRecOn with
  | nil => simp at h
  | append_singleton rest d ih =>
    rw [← List.cons_append, List.rdropWhile_concat, List.rdropWhile_concat]
    rw [List.rdropWhile_concat] at h
    split
    · rename_i hd
      rw [if_pos hd] at h
      exact ih h
    · rfl

/-- Inside a run of white space, the end of the collapsed text is that of its words. -/
theorem rdropWhile_collapseSpaces (text : List Char) :
    (collapseSpaces true text).rdropWhile isSpace = unwords (words text) := by
  induction text with
  | nil => rfl
  | cons c text ih =>
    cases hc : isSpace c with
    | true =>
      rw [words_space hc, ← ih, collapseSpaces, if_pos hc, if_pos rfl]
    | false =>
      rw [collapseSpaces, if_neg (by simp [hc]), rdropWhile_cons_of_not hc]
      cases text with
      | nil => simp [collapseSpaces, words_singleton hc]
      | cons d rest =>
        cases hd : isSpace d with
        | true =>
          rw [words_alone hc hd]
          rw [words_space hd, collapseSpaces, if_pos hd, if_pos rfl] at ih
          rw [collapseSpaces, if_pos hd, if_neg Bool.false_ne_true]
          by_cases hw : words rest = []
          · -- the text ends with this run of white space
            rw [hw] at ih ⊢
            rw [unwords_singleton, (List.rdropWhile_eq_nil_iff ..).mpr]
            refine List.forall_mem_cons.mpr ⟨by decide, ?_⟩
            exact (List.rdropWhile_eq_nil_iff ..).mp ih
          · have hne : (collapseSpaces true rest).rdropWhile isSpace ≠ [] := by
              obtain ⟨w, ws, hws⟩ := List.exists_cons_of_ne_nil hw
              have hword := isWord_of_mem_words (hws ▸ List.mem_cons_self : w ∈ words rest)
              rw [ih, hws]
              obtain ⟨e, v, rfl⟩ := List.exists_cons_of_ne_nil hword.1
              rw [unwords, List.intercalate_cons_cons_left]
              exact List.cons_ne_nil _ _
            rw [rdropWhile_cons_of_ne_nil hne, ih, unwords_cons _ hw]
            rfl
        | false =>
          obtain ⟨w, ws, hw, hcw⟩ := words_joined rest hc hd
          have hsame : collapseSpaces false (d :: rest) = collapseSpaces true (d :: rest) := by
            rw [collapseSpaces, collapseSpaces, if_neg (by simp [hd]), if_neg (by simp [hd])]
          rw [hsame, ih, hw, hcw, unwords, unwords, List.intercalate_cons_cons_left]

/-- What is in front of the first word goes. -/
theorem dropWhile_collapseSpaces (inRun : Bool) (text : List Char) :
    (collapseSpaces inRun text).dropWhile isSpace = collapseSpaces true text := by
  induction text generalizing inRun with
  | nil => rfl
  | cons c text ih =>
    cases hc : isSpace c with
    | true =>
      have hrun : collapseSpaces true (c :: text) = collapseSpaces true text := by
        rw [collapseSpaces, if_pos hc, if_pos rfl]
      cases inRun with
      | true => rw [hrun, ih]
      | false =>
        rw [hrun, collapseSpaces, if_pos hc, if_neg Bool.false_ne_true,
          List.dropWhile_cons_of_pos (by decide), ih]
    | false =>
      rw [collapseSpaces, collapseSpaces, if_neg (by simp [hc]), if_neg (by simp [hc]),
        List.dropWhile_cons_of_neg (by simp [hc])]

/-- **Collapsing and stripping a text joins its words with single spaces.** -/
theorem strip_collapseSpaces (text : List Char) :
    strip (collapseSpaces false text) = unwords (words text) := by
  rw [strip, dropWhile_collapseSpaces, rdropWhile_collapseSpaces]

theorem words_unwords {ws : List (List Char)} (h : ∀ w ∈ ws, IsWord w) :
    words (unwords ws) = ws := by
  induction ws with
  | nil => rfl
  | cons w ws ih =>
    obtain ⟨hw, h⟩ := List.forall_mem_cons.mp h
    by_cases hws : ws = []
    · subst hws
      rw [unwords_singleton, words, List.splitOnP_eq_singleton hw.2, List.filter_cons_of_pos]
      · rfl
      · simpa using hw.1
    · rw [unwords_cons w hws, words_append hw, ih h]

/-! ## The form of the joined words -/

/-- No white space but single spaces, and none at the ends. -/
structure SingleSpaced (text : List Char) : Prop where
  plain : ∀ c ∈ text, isSpace c = true → c = ' '
  apart : text.IsChain fun c d => ¬(isSpace c = true ∧ isSpace d = true)
  first : ∀ c ∈ text.head?, isSpace c = false
  last : ∀ c ∈ text.getLast?, isSpace c = false

theorem IsWord.singleSpaced {w : List Char} (hw : IsWord w) : SingleSpaced w where
  plain c hc hs := by
    rw [hw.2 c hc] at hs
    cases hs
  apart := List.Pairwise.isChain <| List.pairwise_of_forall_mem_list fun c hc d _ hs => by
    rw [hw.2 c hc] at hs
    cases hs.1
  first c hc := hw.2 c (List.mem_of_mem_head? hc)
  last c hc := hw.2 c (List.mem_of_mem_getLast? hc)

/-- A word may stand in front of a text of this form. -/
theorem IsWord.append {w : List Char} (hw : IsWord w) (ht : SingleSpaced text) (hne : text ≠ []) :
    SingleSpaced (w ++ ' ' :: text) where
  plain c hc hs := by
    rcases List.mem_append.mp hc with hc | hc
    · exact hw.singleSpaced.plain c hc hs
    · rcases List.mem_cons.mp hc with rfl | hc
      · rfl
      · exact ht.plain c hc hs
  apart := by
    refine List.isChain_append.mpr ⟨hw.singleSpaced.apart, ?_, ?_⟩
    · refine List.isChain_cons.mpr ⟨fun d hd hs => ?_, ht.apart⟩
      rw [ht.first d hd] at hs
      cases hs.2
    · intro c hc d _ hs
      rw [hw.singleSpaced.last c hc] at hs
      cases hs.1
  first c hc := by
    obtain ⟨d, v, rfl⟩ := List.exists_cons_of_ne_nil hw.1
    exact hw.singleSpaced.first c hc
  last c hc := by
    refine ht.last c ?_
    obtain ⟨d, v, rfl⟩ := List.exists_cons_of_ne_nil hne
    rwa [List.getLast?_append_of_ne_nil _ (List.cons_ne_nil _ _), List.getLast?_cons_cons] at hc

theorem unwords_ne_nil {ws : List (List Char)} (h : ∀ w ∈ ws, IsWord w) (hne : ws ≠ []) :
    unwords ws ≠ [] := by
  obtain ⟨w, vs, rfl⟩ := List.exists_cons_of_ne_nil hne
  obtain ⟨hw, -⟩ := List.forall_mem_cons.mp h
  obtain ⟨c, v, rfl⟩ := List.exists_cons_of_ne_nil hw.1
  rw [unwords, List.intercalate_cons_cons_left]
  exact List.cons_ne_nil _ _

theorem singleSpaced_unwords {ws : List (List Char)} (h : ∀ w ∈ ws, IsWord w) :
    SingleSpaced (unwords ws) := by
  induction ws with
  | nil => exact ⟨by simp [unwords], by simp [unwords], by simp [unwords], by simp [unwords]⟩
  | cons w ws ih =>
    obtain ⟨hw, h⟩ := List.forall_mem_cons.mp h
    by_cases hws : ws = []
    · subst hws
      rw [unwords_singleton]
      exact hw.singleSpaced
    · rw [unwords_cons w hws]
      exact hw.append (ih h) (unwords_ne_nil h hws)

/-! ## The length of the joined words -/

/-- How many characters of a text are not white space. -/
def inked (text : List Char) : ℕ := text.countP fun c => !isSpace c

theorem inked_collapseSpaces (inRun : Bool) (text : List Char) :
    inked (collapseSpaces inRun text) = inked text := by
  unfold inked
  induction text generalizing inRun with
  | nil => rfl
  | cons c text ih =>
    cases hc : isSpace c with
    | true =>
      rw [List.countP_cons_of_neg (by simp [hc]), collapseSpaces, if_pos hc]
      cases inRun with
      | true => rw [if_pos rfl, ih]
      | false => rw [if_neg Bool.false_ne_true, List.countP_cons_of_neg (by decide), ih]
    | false =>
      rw [collapseSpaces, if_neg (by simp [hc]), List.countP_cons_of_pos (by simp [hc]),
        List.countP_cons_of_pos (by simp [hc]), ih]

theorem inked_strip (text : List Char) : inked (strip text) = inked text := by
  have hdrop (l : List Char) : inked (l.dropWhile isSpace) = inked l := by
    unfold inked
    have htake : (l.takeWhile isSpace).countP (fun c => !isSpace c) = 0 :=
      List.countP_eq_zero.mpr fun c hc => by simp [List.mem_takeWhile_imp hc]
    calc (l.dropWhile isSpace).countP (fun c => !isSpace c)
        = (l.takeWhile isSpace ++ l.dropWhile isSpace).countP fun c => !isSpace c := by
          rw [List.countP_append, htake, Nat.zero_add]
      _ = l.countP fun c => !isSpace c := by rw [List.takeWhile_append_dropWhile]
  have hrev (l : List Char) : inked l.reverse = inked l := List.countP_reverse
  rw [strip, List.rdropWhile, hrev, hdrop, hrev, hdrop]

theorem length_unwords {ws : List (List Char)} (h : ∀ w ∈ ws, IsWord w) :
    (unwords ws).length = inked (unwords ws) + (ws.length - 1) := by
  have hword {w : List Char} (hw : IsWord w) : inked w = w.length :=
    List.countP_eq_length.mpr fun c hc => by simp [hw.2 c hc]
  induction ws with
  | nil => rfl
  | cons w ws ih =>
    obtain ⟨hw, h⟩ := List.forall_mem_cons.mp h
    by_cases hws : ws = []
    · subst hws
      rw [unwords_singleton, hword hw]
      rfl
    · have hpos := List.length_pos_of_ne_nil hws
      have hcount : inked (w ++ ' ' :: unwords ws) = w.length + inked (unwords ws) := by
        rw [← hword hw]
        unfold inked
        rw [List.countP_append, List.countP_cons_of_neg (by decide)]
      rw [unwords_cons w hws, hcount, List.length_append, List.length_cons, ih h, List.length_cons]
      omega

theorem length_collapseSpaces_le (inRun : Bool) (text : List Char) :
    (collapseSpaces inRun text).length ≤ text.length := by
  induction text generalizing inRun with
  | nil => exact Nat.le_refl _
  | cons c text ih =>
    rw [collapseSpaces]
    split
    · cases inRun with
      | true => exact (ih true).trans (Nat.le_succ _)
      | false => exact Nat.succ_le_succ (ih true)
    · exact Nat.succ_le_succ (ih false)

/-- **A text keeps its characters, and one space between two words.** -/
theorem length_strip_collapseSpaces (text : List Char) :
    (strip (collapseSpaces false text)).length = inked text + ((words text).length - 1) := by
  have h := length_unwords fun w (hw : w ∈ words text) => isWord_of_mem_words hw
  rwa [← strip_collapseSpaces, inked_strip, inked_collapseSpaces] at h

end AgenticDelivery.Data
