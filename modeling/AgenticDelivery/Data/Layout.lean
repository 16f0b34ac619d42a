import AgenticDelivery.Data.Pattern
import AgenticDelivery.Data.Words

/-! # Phrases, however the text is laid out

A text says a phrase when it has its words in their order, whatever white space
stands between them. This is a match of the phrase in the collapsed and stripped
text: the characters that are not white space stay, in their order, and so does
what stands next to them. -/
namespace AgenticDelivery.Data
open Regex (wordBefore wordAfter)

/-! ## Collapsing in parts -/

theorem collapseSpaces_ink {b : Bool} {c : Char} (hc : isSpace c = false) (t : List Char) :
    collapseSpaces b (c :: t) = c :: collapseSpaces false t := by
  rw [collapseSpaces, if_neg (by simp [hc])]

/-- A run of white space goes on where the first part ends in one. -/
theorem collapseSpaces_append (b : Bool) (x y : List Char) :
    collapseSpaces b (x ++ y) =
      collapseSpaces b x ++ collapseSpaces (wordBefore isSpace b x) y := by
  induction x generalizing b with
  | nil => rfl
  | cons c x ih =>
    rw [List.cons_append, Regex.wordBefore_cons]
    cases hc : isSpace c with
    | false =>
      rw [collapseSpaces_ink hc, collapseSpaces_ink hc, ih, List.cons_append]
    | true =>
      cases b with
      | true => simp [collapseSpaces, hc, ih]
      | false => simp [collapseSpaces, hc, ih]

/-- The collapsed text ends in white space when the text does. -/
theorem wordBefore_isSpace_collapseSpaces (b : Bool) (t : List Char) :
    wordBefore isSpace b (collapseSpaces b t) = wordBefore isSpace b t := by
  induction t generalizing b with
  | nil => rfl
  | cons c t ih =>
    cases hc : isSpace c with
    | false =>
      rw [collapseSpaces_ink hc, Regex.wordBefore_cons, Regex.wordBefore_cons, hc, ih]
    | true =>
      have hspace : isSpace ' ' = true := by decide
      cases b with
      | true => simp [collapseSpaces, hc, ih]
      | false => simp [collapseSpaces, hc, hspace, ih]

theorem eq_space_of_mem_collapseSpaces {b : Bool} {t : List Char} {c : Char}
    (h : c ∈ collapseSpaces b t) (hc : isSpace c = true) : c = ' ' := by
  induction t generalizing b with
  | nil => cases h
  | cons d t ih =>
    cases hd : isSpace d with
    | false =>
      rw [collapseSpaces_ink hd] at h
      rcases List.mem_cons.mp h with rfl | h
      · rw [hc] at hd
        cases hd
      · exact ih h
    | true =>
      rw [collapseSpaces, if_pos hd] at h
      cases b with
      | true => exact ih h
      | false =>
        rcases List.mem_cons.mp h with rfl | h
        · rfl
        · exact ih h

/-- A character that is not white space has its place in the text. -/
theorem collapseSpaces_split {b : Bool} {t x y : List Char} {c : Char} (hc : isSpace c = false)
    (h : collapseSpaces b t = x ++ c :: y) :
    ∃ x₀ y₀, t = x₀ ++ c :: y₀ ∧ collapseSpaces b x₀ = x ∧ collapseSpaces false y₀ = y := by
  induction t generalizing b x with
  | nil => simp [collapseSpaces] at h
  | cons d t ih =>
    cases hd : isSpace d with
    | false =>
      rw [collapseSpaces_ink hd] at h
      cases x with
      | nil =>
        obtain ⟨rfl, hy⟩ := List.cons.inj h
        exact ⟨[], t, rfl, rfl, hy⟩
      | cons e x =>
        obtain ⟨rfl, hrest⟩ := List.cons.inj h
        obtain ⟨x₀, y₀, rfl, hx, hy⟩ := ih hrest
        exact ⟨d :: x₀, y₀, rfl, by rw [collapseSpaces_ink hd, hx], hy⟩
    | true =>
      rw [collapseSpaces, if_pos hd] at h
      cases b with
      | true =>
        obtain ⟨x₀, y₀, rfl, hx, hy⟩ := ih h
        exact ⟨d :: x₀, y₀, rfl, by simp [collapseSpaces, hd, hx], hy⟩
      | false =>
        rw [if_neg Bool.false_ne_true] at h
        cases x with
        | nil =>
          -- the space in front is not this character
          obtain ⟨rfl, -⟩ := List.cons.inj h
          simp [show isSpace ' ' = true by decide] at hc
        | cons e x =>
          obtain ⟨rfl, hrest⟩ := List.cons.inj h
          obtain ⟨x₀, y₀, rfl, hx, hy⟩ := ih hrest
          exact ⟨d :: x₀, y₀, rfl, by simp [collapseSpaces, hd, hx], hy⟩

/-! ## Plain phrases -/

/-- White space only within, and there single spaces only. -/
def Plain (m : List Char) : Prop :=
  collapseSpaces false m = m ∧ m.head?.any (fun c => !isSpace c) = true ∧
    m.getLast?.any (fun c => !isSpace c) = true

instance (m : List Char) : Decidable (Plain m) := inferInstanceAs (Decidable (_ ∧ _ ∧ _))

theorem Plain.first {m : List Char} (h : Plain m) :
    ∃ c rest, m = c :: rest ∧ isSpace c = false := by
  obtain ⟨c, hc, hs⟩ := (Option.any_eq_true ..).mp h.2.1
  obtain ⟨rest, rfl⟩ := List.head?_eq_some_iff.mp hc
  exact ⟨c, rest, rfl, by simpa using hs⟩

theorem Plain.last {m : List Char} (h : Plain m) :
    ∃ front c, m = front ++ [c] ∧ isSpace c = false := by
  obtain ⟨c, hc, hs⟩ := (Option.any_eq_true ..).mp h.2.2
  obtain ⟨front, rfl⟩ := List.getLast?_eq_some_iff.mp hc
  exact ⟨front, c, rfl, by simpa using hs⟩

/-- Around a part that reads as a plain phrase, both sides are collapsed on their own. -/
theorem collapseSpaces_around {b : Bool} {v : List Char} (hv : Plain (collapseSpaces false v))
    (x y : List Char) : collapseSpaces b (x ++ v ++ y) =
      collapseSpaces b x ++ collapseSpaces false v ++ collapseSpaces false y := by
  obtain ⟨c, rest, hfirst, hc⟩ := hv.first
  obtain ⟨front, d, hlast, hd⟩ := hv.last
  have hend (a : Bool) : wordBefore isSpace a v = false := by
    cases v with
    | nil => cases hfirst
    | cons e v =>
      have hsame : wordBefore isSpace a (e :: v) = wordBefore isSpace false (e :: v) := rfl
      rw [hsame, ← wordBefore_isSpace_collapseSpaces, hlast, Regex.wordBefore_append]
      exact hd
  have hstart (a : Bool) : collapseSpaces a v = collapseSpaces false v := by
    cases v with
    | nil => cases hfirst
    | cons e v =>
      cases he : isSpace e with
      | false => rw [collapseSpaces_ink he, collapseSpaces_ink he]
      | true =>
        rw [collapseSpaces, if_pos he, if_neg Bool.false_ne_true] at hfirst
        obtain ⟨rfl, -⟩ := List.cons.inj hfirst
        simp [show isSpace ' ' = true by decide] at hc
  rw [collapseSpaces_append, collapseSpaces_append, hstart, Regex.wordBefore_append, hend]

/-- A plain phrase of the collapsed text is a part of the text that reads so. -/
theorem collapseSpaces_plain {b : Bool} {t x m y : List Char} (hm : Plain m)
    (h : collapseSpaces b t = x ++ m ++ y) :
    ∃ x₀ v y₀, t = x₀ ++ v ++ y₀ ∧ collapseSpaces b x₀ = x ∧ collapseSpaces false v = m ∧
      collapseSpaces false y₀ = y := by
  obtain ⟨c, rest, hfirst, hc⟩ := hm.first
  obtain ⟨front, d, hlast, hd⟩ := hm.last
  have hcut : collapseSpaces b t = x ++ c :: (rest ++ y) := by
    rw [h, hfirst, List.append_assoc, List.cons_append]
  obtain ⟨x₀, y₁, rfl, hx, hy₁⟩ := collapseSpaces_split hc hcut
  cases front with
  | nil =>
    -- a phrase of one character
    obtain ⟨rfl, rfl⟩ : c = d ∧ rest = [] := by
      rw [hfirst] at hlast
      exact List.cons.inj hlast
    refine ⟨x₀, [c], y₁, ?_, hx, ?_, hy₁⟩
    · rw [List.append_assoc, List.singleton_append]
    · rw [hfirst, collapseSpaces_ink hc]
      rfl
  | cons e front =>
    obtain ⟨rfl, rfl⟩ : c = e ∧ rest = front ++ [d] := by
      rw [hfirst, List.cons_append] at hlast
      exact List.cons.inj hlast
    have hcut₂ : collapseSpaces false y₁ = front ++ d :: y := by
      rw [hy₁, List.append_assoc, List.singleton_append]
    obtain ⟨v, y₀, rfl, hv, hy⟩ := collapseSpaces_split hd hcut₂
    refine ⟨x₀, c :: (v ++ [d]), y₀, by simp, hx, ?_, hy⟩
    rw [hfirst, collapseSpaces_ink hc, collapseSpaces_append, hv, collapseSpaces_ink hd]
    rfl

/-! ## Stripping around a phrase -/

/-- White space at the ends goes, and nothing else. -/
theorem strip_around {m : List Char} (x y : List Char)
    (hfirst : ∃ c rest, m = c :: rest ∧ isSpace c = false)
    (hlast : ∃ front c, m = front ++ [c] ∧ isSpace c = false) :
    strip (x ++ m ++ y) = x.dropWhile isSpace ++ m ++ y.rdropWhile isSpace := by
  have drop (x z : List Char) {c : Char} (hc : isSpace c = false) :
      (x ++ c :: z).dropWhile isSpace = x.dropWhile isSpace ++ c :: z := by
    rw [List.dropWhile_append, List.dropWhile_cons_of_neg (by simp [hc])]
    split
    · rename_i hx
      rw [List.isEmpty_iff.mp hx, List.nil_append]
    · rfl
  obtain ⟨c, rest, hm, hc⟩ := hfirst
  obtain ⟨front, d, hm', hd⟩ := hlast
  have hleft : (x ++ m ++ y).dropWhile isSpace = x.dropWhile isSpace ++ m ++ y := by
    rw [hm, List.append_assoc, List.cons_append, drop x (rest ++ y) hc]
    simp
  unfold strip
  rw [hleft, List.rdropWhile, hm']
  have hrev : (x.dropWhile isSpace ++ (front ++ [d]) ++ y).reverse =
      y.reverse ++ d :: (front.reverse ++ (x.dropWhile isSpace).reverse) := by simp
  rw [hrev, drop _ _ hd, List.rdropWhile]
  simp

/-- What `strip` leaves stands between white space. -/
theorem strip_eq_part (t : List Char) : ∃ left right, t = left ++ strip t ++ right ∧
    (∀ c ∈ left, isSpace c = true) ∧ ∀ c ∈ right, isSpace c = true := by
  refine ⟨t.takeWhile isSpace, (t.dropWhile isSpace).rtakeWhile isSpace, ?_, ?_, ?_⟩
  · rw [strip, List.append_assoc, List.rdropWhile_append_rtakeWhile,
      List.takeWhile_append_dropWhile]
  · intro c hc
    exact List.mem_takeWhile_imp hc
  · intro c hc
    exact List.mem_rtakeWhile_imp hc

/-! ## What stands next to a phrase -/

section Contexts
variable {word : Char → Bool} (hword : ∀ c, isSpace c = true → word c = false)
include hword

theorem wordBefore_spaces {s : List Char} (hs : ∀ c ∈ s, isSpace c = true) :
    wordBefore word false s = false := by
  induction s with
  | nil => rfl
  | cons c s ih =>
    obtain ⟨hc, hs⟩ := List.forall_mem_cons.mp hs
    rw [Regex.wordBefore_cons, hword c hc, ih hs]

theorem wordAfter_spaces {s : List Char} (hs : ∀ c ∈ s, isSpace c = true) :
    wordAfter word false s = false := by
  cases s with
  | nil => rfl
  | cons c s => exact hword c (hs c List.mem_cons_self)

/-- Within a run of white space no word character stands before. -/
theorem wordBefore_collapseSpaces {b before : Bool} (hb : b = true → before = false)
    (t : List Char) : wordBefore word before (collapseSpaces b t) = wordBefore word before t := by
  induction t generalizing b before with
  | nil => rfl
  | cons c t ih =>
    cases hc : isSpace c with
    | false =>
      have hrun : false = true → word c = false := nofun
      rw [collapseSpaces_ink hc, Regex.wordBefore_cons, Regex.wordBefore_cons, ih hrun]
    | true =>
      rw [collapseSpaces, if_pos hc, Regex.wordBefore_cons, hword c hc]
      cases b with
      | true => rw [if_pos rfl, ih fun _ => hb rfl, hb rfl]
      | false =>
        have hspace : word ' ' = false := hword ' ' (by decide)
        rw [if_neg Bool.false_ne_true, Regex.wordBefore_cons, hspace, ih fun _ => rfl]

theorem wordBefore_collapsed (before : Bool) (t : List Char) :
    wordBefore word before (collapseSpaces false t) = wordBefore word before t :=
  wordBefore_collapseSpaces hword (b := false) nofun t

theorem wordAfter_collapseSpaces (after : Bool) (t : List Char) :
    wordAfter word after (collapseSpaces false t) = wordAfter word after t := by
  cases t with
  | nil => rfl
  | cons c t =>
    cases hc : isSpace c with
    | false => rw [collapseSpaces_ink hc, Regex.wordAfter_cons, Regex.wordAfter_cons]
    | true =>
      have hspace : word ' ' = false := hword ' ' (by decide)
      rw [collapseSpaces, if_pos hc, if_neg Bool.false_ne_true, Regex.wordAfter_cons,
        Regex.wordAfter_cons, hword c hc, hspace]

theorem wordBefore_dropWhile (t : List Char) :
    wordBefore word false (t.dropWhile isSpace) = wordBefore word false t := by
  have h : wordBefore word false (t.takeWhile isSpace ++ t.dropWhile isSpace) =
      wordBefore word false (t.dropWhile isSpace) := by
    rw [Regex.wordBefore_append, wordBefore_spaces hword fun c hc => List.mem_takeWhile_imp hc]
  rw [← h, List.takeWhile_append_dropWhile]

theorem wordAfter_rdropWhile (t : List Char) :
    wordAfter word false (t.rdropWhile isSpace) = wordAfter word false t := by
  have h : wordAfter word false (t.rdropWhile isSpace ++ t.rtakeWhile isSpace) =
      wordAfter word false (t.rdropWhile isSpace) := by
    rw [Regex.wordAfter_append, wordAfter_spaces hword fun c hc => List.mem_rtakeWhile_imp hc]
  rw [← h, List.rdropWhile_append_rtakeWhile]

end Contexts

/-! ## Two phrases, one behind the other -/

/-- A place where the text says `r` and, behind it, `s`: with one space for every
run of white space, both parts match as whole words. -/
structure Said (word : Char → Bool) (r s : Regex Char) (text : List Char) where
  pre : List Char
  first : List Char
  gap : List Char
  second : List Char
  post : List Char
  parts : text = pre ++ first ++ gap ++ second ++ post
  firstAt : (Regex.whole r).At word pre (collapseSpaces false first) (gap ++ second ++ post)
  secondAt : (Regex.whole s).At word (pre ++ first ++ gap) (collapseSpaces false second) post

variable {word : Char → Bool} {r s : Regex Char} {text : List Char} {n : Nat}

/-- At most `n` characters between the phrases, every run of white space counted as one. -/
def Said.Within (n : Nat) (said : Said word r s text) : Prop :=
  (collapseSpaces false said.gap).length ≤ n

/-- The phrases stand there with single spaces, and between them at most `n` characters and
no newline. -/
structure Said.OnOneLine (n : Nat) (said : Said word r s text) : Prop where
  first : collapseSpaces false said.first = said.first
  second : collapseSpaces false said.second = said.second
  gap : said.gap.length ≤ n
  noNewline : '\n' ∉ said.gap

theorem Said.OnOneLine.within {said : Said word r s text} (h : said.OnOneLine n) :
    said.Within n :=
  (length_collapseSpaces_le false said.gap).trans h.gap

/-- `r` matches plain phrases only. -/
def PlainOnly (word : Char → Bool) (r : Regex Char) : Prop :=
  ∀ before m after, r.Matches word before m after → Plain m

theorem PlainOnly.at {pre m post : List Char} (hr : PlainOnly word r)
    (h : (Regex.whole r).At word pre m post) : Plain m :=
  hr _ _ _ (Regex.matches_whole.mp h).2.1

theorem anyButNewline_iff {gap : List Char} :
    (∀ c ∈ gap, anyButNewline c = true) ↔ '\n' ∉ gap := by
  unfold anyButNewline
  constructor
  · intro h hc
    simpa using h _ hc
  · intro h c hc
    have hne : c ≠ '\n' := fun heq => h (heq ▸ hc)
    simpa using hne

/-- **In the text as it stands, the search finds what is said on one line.** -/
theorem occurs_near_iff_onOneLine (hr : PlainOnly word r) (hs : PlainOnly word s) :
    (Regex.near r n anyButNewline s).Occurs word text ↔
      ∃ said : Said word r s text, said.OnOneLine n := by
  rw [Regex.occurs_near]
  constructor
  · intro ⟨pre, m₁, gap, m₂, post, ht, h₁, hlen, hgap, h₂⟩
    have hm₁ := (hr.at h₁).1
    have hm₂ := (hs.at h₂).1
    refine ⟨⟨pre, m₁, gap, m₂, post, ht, ?_, ?_⟩, hm₁, hm₂, hlen, anyButNewline_iff.mp hgap⟩
    · rwa [hm₁]
    · rwa [hm₂]
  · intro ⟨said, hline⟩
    have h₁ := said.firstAt
    have h₂ := said.secondAt
    rw [hline.first] at h₁
    rw [hline.second] at h₂
    exact ⟨_, _, _, _, _, said.parts, h₁, hline.gap, anyButNewline_iff.mpr hline.noNewline, h₂⟩

section Normalised
variable (hword : ∀ c, isSpace c = true → word c = false)
include hword

/-- What is said in the text stands in the normalised text. -/
theorem Said.occurs (hr : PlainOnly word r) (hs : PlainOnly word s) (said : Said word r s text)
    (h : said.Within n) :
    (Regex.near r n anyButNewline s).Occurs word (strip (collapseSpaces false text)) := by
  obtain ⟨pre, first, gap, second, post, rfl, h₁, h₂⟩ := said
  have hfirst := hr.at h₁
  have hsecond := hs.at h₂
  have hcollapse : collapseSpaces false (pre ++ first ++ gap ++ second ++ post) =
      collapseSpaces false pre ++
        (collapseSpaces false first ++ collapseSpaces false gap ++ collapseSpaces false second) ++
        collapseSpaces false post := by
    have h := collapseSpaces_around (b := false) hfirst pre (gap ++ second ++ post)
    rw [collapseSpaces_around hsecond] at h
    simpa only [List.append_assoc] using h
  have hends := strip_around (collapseSpaces false pre) (collapseSpaces false post)
    (m := collapseSpaces false first ++ collapseSpaces false gap ++ collapseSpaces false second)
    (by
      obtain ⟨c, rest, hc, hs⟩ := hfirst.first
      exact ⟨c, _, by rw [hc, List.append_assoc, List.cons_append], hs⟩)
    (by
      obtain ⟨front, c, hc, hs⟩ := hsecond.last
      exact ⟨_, c, by rw [hc, ← List.append_assoc], hs⟩)
  rw [hcollapse, hends, Regex.occurs_near]
  refine ⟨(collapseSpaces false pre).dropWhile isSpace, collapseSpaces false first,
    collapseSpaces false gap, collapseSpaces false second,
    (collapseSpaces false post).rdropWhile isSpace, by simp only [List.append_assoc], ?_, h, ?_, ?_⟩
  · -- the first phrase stands where it stood
    have hafter : wordAfter word false
        (collapseSpaces false gap ++ collapseSpaces false second ++
          (collapseSpaces false post).rdropWhile isSpace) =
        wordAfter word false (gap ++ second ++ post) := by
      rw [Regex.wordAfter_append, wordAfter_rdropWhile hword, ← Regex.wordAfter_append,
        ← wordAfter_collapseSpaces hword false (gap ++ second ++ post),
        collapseSpaces_around hsecond]
    rw [Regex.At, wordBefore_dropWhile hword, wordBefore_collapsed hword, hafter]
    exact h₁
  · rw [anyButNewline_iff]
    intro hc
    have := eq_space_of_mem_collapseSpaces hc (by decide)
    contradiction
  · have hbefore : wordBefore word false ((collapseSpaces false pre).dropWhile isSpace ++
        collapseSpaces false first ++ collapseSpaces false gap) =
        wordBefore word false (pre ++ first ++ gap) := by
      simp only [Regex.wordBefore_append]
      rw [wordBefore_dropWhile hword, wordBefore_collapsed hword, wordBefore_collapsed hword,
        wordBefore_collapsed hword]
    rw [Regex.At, hbefore, wordAfter_rdropWhile hword, wordAfter_collapseSpaces hword]
    exact h₂

/-- What stands in the normalised text is said in the text. -/
theorem Said.of_occurs (hr : PlainOnly word r) (hs : PlainOnly word s)
    (h : (Regex.near r n anyButNewline s).Occurs word (strip (collapseSpaces false text))) :
    ∃ said : Said word r s text, said.Within n := by
  obtain ⟨pre, m₁, gap, m₂, post, ht, h₁, hlen, -, h₂⟩ := Regex.occurs_near.mp h
  obtain ⟨left, right, hstrip, hleft, hright⟩ := strip_eq_part (collapseSpaces false text)
  have hcut₁ : collapseSpaces false text =
      left ++ pre ++ m₁ ++ (gap ++ m₂ ++ (post ++ right)) := by
    rw [hstrip, ht]
    simp only [List.append_assoc]
  obtain ⟨pre₀, first, rest, rfl, hpre, hfirst, hrest⟩ := collapseSpaces_plain (hr.at h₁) hcut₁
  obtain ⟨gap₀, second, post₀, rfl, hgap, hsecond, hpost⟩ := collapseSpaces_plain (hs.at h₂) hrest
  have hbefore : wordBefore word false pre₀ = wordBefore word false pre := by
    rw [← wordBefore_collapsed hword, hpre, Regex.wordBefore_append,
      wordBefore_spaces hword hleft]
  have hafter : wordAfter word false post₀ = wordAfter word false post := by
    rw [← wordAfter_collapseSpaces hword, hpost, Regex.wordAfter_append,
      wordAfter_spaces hword hright]
  refine ⟨⟨pre₀, first, gap₀, second, post₀, by simp only [List.append_assoc], ?_, ?_⟩, ?_⟩
  · have hbehind : wordAfter word false (gap₀ ++ second ++ post₀) =
        wordAfter word false (gap ++ m₂ ++ post) := by
      rw [← wordAfter_collapseSpaces hword, hrest]
      simp only [Regex.wordAfter_append, wordAfter_spaces hword hright]
    rw [Regex.At, hfirst, hbefore, hbehind]
    exact h₁
  · have hfront : wordBefore word false (pre₀ ++ first ++ gap₀) =
        wordBefore word false (pre ++ m₁ ++ gap) := by
      simp only [Regex.wordBefore_append]
      rw [hbefore, ← hfirst, ← hgap, wordBefore_collapsed hword, wordBefore_collapsed hword]
    rw [Regex.At, hsecond, hafter, hfront]
    exact h₂
  · show (collapseSpaces false gap₀).length ≤ n
    rwa [hgap]

/-- **In the normalised text, the search finds what is said with few characters between.** -/
theorem occurs_near_iff_within (hr : PlainOnly word r) (hs : PlainOnly word s) :
    (Regex.near r n anyButNewline s).Occurs word (strip (collapseSpaces false text)) ↔
      ∃ said : Said word r s text, said.Within n :=
  ⟨Said.of_occurs hword hr hs, fun ⟨said, h⟩ => said.occurs hword hr hs h⟩

end Normalised

/-! ## Plain phrases of a pattern -/

/-- A character is its own lower case, or an upper-case letter of ASCII. -/
theorem toLower_cases (d : Char) : d.toLower = d ∨
    (65 ≤ d.toNat ∧ d.toNat ≤ 90) ∧ 97 ≤ d.toLower.toNat ∧ d.toLower.toNat ≤ 122 := by
  unfold Char.toLower
  split
  · rename_i h
    have hlow : 65 ≤ d.toNat := h.1
    have hhigh : d.toNat ≤ 90 := h.2
    have hsum (hv) : (Char.mk (d.val + ('a'.val - 'A'.val)) hv).toNat = d.toNat + 32 := by
      show (d.val + 32).toNat = d.val.toNat + 32
      have : d.val.toNat ≤ 90 := hhigh
      simp only [UInt32.toNat_add, UInt32.reduceToNat]
      omega
    rw [hsum]
    omega
  · exact .inl rfl

theorem isSpace_toLower (d : Char) : isSpace d.toLower = isSpace d := by
  rcases toLower_cases d with h | h
  · rw [h]
  · unfold isSpace
    rw [Bool.eq_iff_iff]
    simp
    omega

/-- The case of a letter does not make it white space. -/
theorem isSpace_of_ignoreCase {c d : Char} (h : ignoreCase c d = true) :
    isSpace d = isSpace c := by
  unfold ignoreCase at h
  simp only [Bool.or_eq_true, Bool.and_eq_true, beq_iff_eq] at h
  rcases h with ((rfl | ⟨rfl, h | h⟩) | ⟨rfl, h⟩) | ⟨rfl, h⟩
  · exact (isSpace_toLower d).symm
  all_goals
    unfold isSpace
    rw [h]
    decide

theorem eq_space_of_ignoreCase {d : Char} (h : ignoreCase ' ' d = true) : d = ' ' := by
  have hlow : d.toLower = ' ' := by simpa [ignoreCase] using h
  rcases toLower_cases d with hd | hd
  · rw [← hd, hlow]
  · rw [hlow] at hd
    simp at hd

/-- What a plain phrase matches is laid out as the phrase is. -/
theorem collapseSpaces_of_matches {t m : List Char} {b : Bool}
    (hm : List.Forall₂ (fun c d => ignoreCase c d = true) t m) (ht : collapseSpaces b t = t) :
    collapseSpaces b m = m := by
  induction hm generalizing b with
  | nil => rfl
  | @cons c d t m hcd hm ih =>
    have hd := isSpace_of_ignoreCase hcd
    cases hc : isSpace c with
    | false =>
      rw [hc] at hd
      rw [collapseSpaces_ink hc] at ht
      rw [collapseSpaces_ink hd, ih (List.cons.inj ht).2]
    | true =>
      rw [hc] at hd
      rw [collapseSpaces, if_pos hc] at ht
      rw [collapseSpaces, if_pos hd]
      cases b with
      | true =>
        -- a second space in a row would be gone
        have hlen := length_collapseSpaces_le true t
        rw [if_pos rfl] at ht
        rw [ht, List.length_cons] at hlen
        omega
      | false =>
        rw [if_neg Bool.false_ne_true] at ht ⊢
        obtain ⟨rfl, hrest⟩ := List.cons.inj ht
        rw [eq_space_of_ignoreCase hcd, ih hrest]

theorem PlainOnly.phrase {text : String} (h : Plain text.toList) :
    PlainOnly word (phrase text) := by
  intro before m after hm
  have hm : List.Forall₂ (fun c d => ignoreCase c d = true) text.toList m := by
    have := Regex.matches_literal.mp hm
    rwa [letters, List.forall₂_map_left_iff] at this
  have hink {c d : Char} (hcd : ignoreCase c d = true) (hc : isSpace c = false) :
      (!isSpace d) = true := by
    rw [isSpace_of_ignoreCase hcd, hc]
    rfl
  refine ⟨collapseSpaces_of_matches hm h.1, ?_, ?_⟩
  · obtain ⟨c, rest, hc, hs⟩ := h.first
    rw [hc] at hm
    cases hm with
    | cons hcd _ => simpa using hink hcd hs
  · obtain ⟨front, c, hc, hs⟩ := h.last
    have hrev := List.forall₂_reverse_iff.mpr hm
    rw [hc, List.reverse_append] at hrev
    rw [List.getLast?_eq_head?_reverse]
    generalize m.reverse = back at hrev
    cases hrev with
    | cons hcd _ => simpa using hink hcd hs

theorem PlainOnly.phrases {texts : List String} (h : ∀ text ∈ texts, Plain text.toList) :
    PlainOnly word (phrases texts) := by
  intro before m after hm
  obtain ⟨r, hr, hm⟩ := Regex.matches_oneOf.mp hm
  obtain ⟨text, ht, rfl⟩ := List.mem_map.mp hr
  exact PlainOnly.phrase (h text ht) before m after hm

end AgenticDelivery.Data
