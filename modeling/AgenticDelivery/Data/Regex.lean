import Mathlib.Data.List.Forall2
import Mathlib.Data.List.Infix

/-! # Regular expressions with word boundaries

Expressions over any alphabet, some of whose characters are word characters.
Whether a part of a text matches depends on the part and on whether word
characters stand next to it, and on nothing else. `search` decides whether some
part of a text matches. -/
namespace AgenticDelivery.Data

inductive Regex (α : Type)
  | empty
  | char (p : α → Bool)
  | seq (r s : Regex α)
  | alt (r s : Regex α)
  /-- `p{0,n}` -/
  | upTo (n : Nat) (p : α → Bool)
  /-- `\b` -/
  | boundary

namespace Regex
variable {α : Type}

/-- Is the last character of `text` a word character? `before` if there is none. -/
def wordBefore (word : α → Bool) (before : Bool) (text : List α) : Bool :=
  text.foldl (fun _ c => word c) before

/-- Is the first character of `text` a word character? `after` if there is none. -/
def wordAfter (word : α → Bool) (after : Bool) (text : List α) : Bool :=
  text.foldr (fun c _ => word c) after

/-- `m` matches, between characters of which `before` and `after` say whether they
are word characters. -/
def Matches (word : α → Bool) : Regex α → Bool → List α → Bool → Prop
  | empty, _, m, _ => m = []
  | char p, _, m, _ => ∃ c, m = [c] ∧ p c = true
  | seq r s, before, m, after => ∃ m₁ m₂, m = m₁ ++ m₂ ∧
      r.Matches word before m₁ (wordAfter word after m₂) ∧
      s.Matches word (wordBefore word before m₁) m₂ after
  | alt r s, before, m, after => r.Matches word before m after ∨ s.Matches word before m after
  | upTo n p, _, m, _ => m.length ≤ n ∧ ∀ c ∈ m, p c = true
  | boundary, before, m, after => m = [] ∧ before ≠ after

/-- The part `m` of the text `pre ++ m ++ post` matches. -/
def At (word : α → Bool) (r : Regex α) (pre m post : List α) : Prop :=
  r.Matches word (wordBefore word false pre) m (wordAfter word false post)

/-- Some part of the text matches. -/
def Occurs (word : α → Bool) (r : Regex α) (text : List α) : Prop :=
  ∃ pre m post, text = pre ++ m ++ post ∧ r.At word pre m post

/-! ## The search -/

/-- The ways to match `p{0,n}` at the front: what is then before the rest, and the rest. -/
def upToEnds (word p : α → Bool) : Nat → Bool → List α → List (Bool × List α)
  | 0, before, text => [(before, text)]
  | _ + 1, before, [] => [(before, [])]
  | n + 1, before, c :: rest =>
    (before, c :: rest) :: if p c then upToEnds word p n (word c) rest else []

/-- The ways to match at the front of a text. -/
def ends (word : α → Bool) : Regex α → Bool → List α → List (Bool × List α)
  | empty, before, text => [(before, text)]
  | char p, _, text =>
    match text with
    | [] => []
    | c :: rest => if p c then [(word c, rest)] else []
  | seq r s, before, text => (r.ends word before text).flatMap fun e => s.ends word e.1 e.2
  | alt r s, before, text => r.ends word before text ++ s.ends word before text
  | upTo n p, before, text => upToEnds word p n before text
  | boundary, before, text => if before ≠ wordAfter word false text then [(before, text)] else []

def searchFrom (word : α → Bool) (r : Regex α) : Bool → List α → Bool
  | before, [] => !(r.ends word before []).isEmpty
  | before, c :: rest =>
    !(r.ends word before (c :: rest)).isEmpty || searchFrom word r (word c) rest

/-- `pattern.search(text) is not None` -/
def search (word : α → Bool) (r : Regex α) (text : List α) : Bool := r.searchFrom word false text

variable {word : α → Bool} {r s : Regex α} {before after : Bool} {text : List α}

@[simp] theorem wordBefore_nil : wordBefore word before [] = before := rfl

@[simp] theorem wordBefore_append (t u : List α) :
    wordBefore word before (t ++ u) = wordBefore word (wordBefore word before t) u :=
  List.foldl_append

@[simp] theorem wordBefore_cons (c : α) (t : List α) :
    wordBefore word before (c :: t) = wordBefore word (word c) t := rfl

@[simp] theorem wordAfter_nil : wordAfter word after [] = after := rfl

@[simp] theorem wordAfter_append (t u : List α) :
    wordAfter word after (t ++ u) = wordAfter word (wordAfter word after u) t :=
  List.foldr_append

@[simp] theorem wordAfter_cons (c : α) (t : List α) : wordAfter word after (c :: t) = word c := rfl

theorem mem_upToEnds {p : α → Bool} {n : Nat} {e : Bool × List α} :
    e ∈ upToEnds word p n before text ↔ ∃ m, text = m ++ e.2 ∧ e.1 = wordBefore word before m ∧
      m.length ≤ n ∧ ∀ c ∈ m, p c = true := by
  induction n generalizing before text with
  | zero =>
    simp only [upToEnds, List.mem_singleton, Nat.le_zero, List.length_eq_zero_iff]
    constructor
    · rintro rfl
      exact ⟨[], rfl, rfl, rfl, nofun⟩
    · rintro ⟨m, ht, hb, rfl, -⟩
      exact Prod.ext hb ht.symm
  | succ n ih =>
    cases text with
    | nil =>
      simp only [upToEnds, List.mem_singleton]
      constructor
      · rintro rfl
        exact ⟨[], rfl, rfl, Nat.zero_le _, nofun⟩
      · rintro ⟨m, ht, hb, -, -⟩
        obtain ⟨rfl, he⟩ := List.append_eq_nil_iff.mp ht.symm
        exact Prod.ext hb he
    | cons c rest =>
      rw [upToEnds, List.mem_cons]
      constructor
      · rintro (rfl | h)
        · exact ⟨[], rfl, rfl, Nat.zero_le _, nofun⟩
        · split at h
          · rename_i hc
            obtain ⟨m, rfl, hb, hlen, hp⟩ := ih.mp h
            exact ⟨c :: m, rfl, hb, Nat.succ_le_succ hlen, List.forall_mem_cons.mpr ⟨hc, hp⟩⟩
          · cases h
      · rintro ⟨m, ht, hb, hlen, hp⟩
        cases m with
        | nil => exact .inl (Prod.ext hb ht.symm)
        | cons d m =>
          obtain ⟨rfl, rfl⟩ := List.cons.inj ht
          obtain ⟨hc, hp⟩ := List.forall_mem_cons.mp hp
          rw [if_pos hc]
          exact .inr (ih.mpr ⟨m, rfl, hb, Nat.le_of_succ_le_succ hlen, hp⟩)

/-- The search at the front finds the matching parts, and only these. -/
theorem mem_ends {e : Bool × List α} :
    e ∈ r.ends word before text ↔ ∃ m, text = m ++ e.2 ∧ e.1 = wordBefore word before m ∧
      r.Matches word before m (wordAfter word false e.2) := by
  induction r generalizing before text e with
  | empty =>
    simp only [ends, List.mem_singleton, Matches]
    constructor
    · rintro rfl
      exact ⟨[], rfl, rfl, rfl⟩
    · rintro ⟨m, ht, hb, rfl⟩
      exact Prod.ext hb ht.symm
  | char p =>
    cases text with
    | nil =>
      simp only [ends, List.not_mem_nil, Matches, false_iff]
      rintro ⟨m, ht, -, c, rfl, -⟩
      cases ht
    | cons c rest =>
      simp only [ends, Matches]
      constructor
      · intro h
        split at h
        · rename_i hc
          cases List.mem_singleton.mp h
          exact ⟨[c], rfl, rfl, c, rfl, hc⟩
        · cases h
      · rintro ⟨m, ht, hb, d, rfl, hd⟩
        obtain ⟨rfl, rfl⟩ := List.cons.inj ht
        rw [if_pos hd, List.mem_singleton]
        exact Prod.ext hb rfl
  | seq r s ihr ihs =>
    simp only [ends, List.mem_flatMap, Matches]
    constructor
    · rintro ⟨e', he', he⟩
      obtain ⟨m₁, rfl, hb₁, hm₁⟩ := ihr.mp he'
      obtain ⟨m₂, ht₂, hb₂, hm₂⟩ := ihs.mp he
      refine ⟨m₁ ++ m₂, by rw [ht₂, List.append_assoc], ?_, m₁, m₂, rfl, ?_, ?_⟩
      · rw [hb₂, hb₁, wordBefore_append]
      · rwa [ht₂, wordAfter_append] at hm₁
      · rwa [hb₁] at hm₂
    · rintro ⟨m, ht, hb, m₁, m₂, rfl, hm₁, hm₂⟩
      refine ⟨(wordBefore word before m₁, m₂ ++ e.2), ihr.mpr ⟨m₁, ?_, rfl, ?_⟩,
        ihs.mpr ⟨m₂, rfl, ?_, hm₂⟩⟩
      · rw [ht, List.append_assoc]
      · rwa [wordAfter_append]
      · rw [hb, wordBefore_append]
  | alt r s ihr ihs =>
    simp only [ends, List.mem_append, ihr, ihs, Matches]
    constructor
    · rintro (⟨m, ht, hb, hm⟩ | ⟨m, ht, hb, hm⟩)
      · exact ⟨m, ht, hb, .inl hm⟩
      · exact ⟨m, ht, hb, .inr hm⟩
    · rintro ⟨m, ht, hb, hm | hm⟩
      · exact .inl ⟨m, ht, hb, hm⟩
      · exact .inr ⟨m, ht, hb, hm⟩
  | upTo n p => exact mem_upToEnds
  | boundary =>
    simp only [ends, Matches]
    constructor
    · intro h
      split at h
      · rename_i hne
        cases List.mem_singleton.mp h
        exact ⟨[], rfl, rfl, rfl, hne⟩
      · cases h
    · rintro ⟨m, rfl, hb, rfl, hne⟩
      rw [List.nil_append, if_pos hne, List.mem_singleton]
      exact Prod.ext hb rfl

theorem searchFrom_iff : r.searchFrom word before text = true ↔
    ∃ pre m post, text = pre ++ m ++ post ∧
      r.Matches word (wordBefore word before pre) m (wordAfter word false post) := by
  have here (b : Bool) (t : List α) : (!(r.ends word b t).isEmpty) = true ↔
      ∃ m post, t = m ++ post ∧ r.Matches word b m (wordAfter word false post) := by
    rw [Bool.not_eq_true', List.isEmpty_eq_false_iff_exists_mem]
    constructor
    · rintro ⟨e, he⟩
      obtain ⟨m, ht, -, hm⟩ := mem_ends.mp he
      exact ⟨m, e.2, ht, hm⟩
    · rintro ⟨m, post, ht, hm⟩
      exact ⟨(wordBefore word b m, post), mem_ends.mpr ⟨m, ht, rfl, hm⟩⟩
  induction text generalizing before with
  | nil =>
    rw [searchFrom, here]
    constructor
    · rintro ⟨m, post, ht, hm⟩
      exact ⟨[], m, post, ht, hm⟩
    · rintro ⟨pre, m, post, ht, hm⟩
      obtain ⟨rfl, -⟩ : pre = [] ∧ m = [] := by
        rw [eq_comm, List.append_eq_nil_iff, List.append_eq_nil_iff] at ht
        exact ht.1
      exact ⟨m, post, ht, hm⟩
  | cons c rest ih =>
    rw [searchFrom, Bool.or_eq_true]
    refine (or_congr (here before (c :: rest)) ih).trans ⟨?_, ?_⟩
    · rintro (⟨m, post, ht, hm⟩ | ⟨pre, m, post, rfl, hm⟩)
      · exact ⟨[], m, post, ht, hm⟩
      · exact ⟨c :: pre, m, post, rfl, hm⟩
    · rintro ⟨pre, m, post, ht, hm⟩
      cases pre with
      | nil => exact .inl ⟨m, post, ht, hm⟩
      | cons d pre =>
        obtain ⟨rfl, rfl⟩ := List.cons.inj ht
        exact .inr ⟨pre, m, post, rfl, hm⟩

/-- **The search is sound and complete.** -/
theorem search_iff : r.search word text = true ↔ r.Occurs word text := searchFrom_iff

instance : Decidable (r.Occurs word text) := decidable_of_iff _ search_iff

/-! ## Parts of a text -/

/-- A match in a part that stands between other characters than word characters is
a match in the whole text. -/
theorem Occurs.embed (h : r.Occurs word text) (left right : List α)
    (hl : wordBefore word false left = false) (hr : wordAfter word false right = false) :
    r.Occurs word (left ++ text ++ right) := by
  obtain ⟨pre, m, post, rfl, hm⟩ := h
  refine ⟨left ++ pre, m, post ++ right, by simp only [List.append_assoc], ?_⟩
  rw [At, wordBefore_append, wordAfter_append, hl, hr]
  exact hm

/-- The other way round, for a match that stands within the part. -/
theorem At.within (left right : List α) {pre m post : List α}
    (h : r.At word (left ++ pre) m (post ++ right)) (hl : wordBefore word false left = false)
    (hr : wordAfter word false right = false) : r.At word pre m post := by
  rwa [At, wordBefore_append, wordAfter_append, hl, hr] at h

section Congr
variable {word' : α → Bool}

theorem wordBefore_congr (hw : ∀ c ∈ text, word c = word' c) :
    wordBefore word before text = wordBefore word' before text := by
  induction text generalizing before with
  | nil => rfl
  | cons c text ih =>
    obtain ⟨hc, hw⟩ := List.forall_mem_cons.mp hw
    rw [wordBefore_cons, wordBefore_cons, hc, ih hw]

theorem wordAfter_congr (hw : ∀ c ∈ text, word c = word' c) :
    wordAfter word after text = wordAfter word' after text := by
  cases text with
  | nil => rfl
  | cons c text => exact hw c List.mem_cons_self

theorem Matches.congr {m : List α} (hw : ∀ c ∈ m, word c = word' c)
    (h : r.Matches word before m after) : r.Matches word' before m after := by
  induction r generalizing before m after with
  | empty => exact h
  | char p => exact h
  | seq r s ihr ihs =>
    obtain ⟨m₁, m₂, rfl, h₁, h₂⟩ := h
    obtain ⟨hw₁, hw₂⟩ := List.forall_mem_append.mp hw
    refine ⟨m₁, m₂, rfl, ?_, ?_⟩
    · rw [← wordAfter_congr hw₂]
      exact ihr hw₁ h₁
    · rw [← wordBefore_congr hw₁]
      exact ihs hw₂ h₂
  | alt r s ihr ihs =>
    rcases h with h | h
    · exact .inl (ihr hw h)
    · exact .inr (ihs hw h)
  | upTo n p => exact h
  | boundary => exact h

/-- Only the characters of the text decide. -/
theorem Occurs.congr (hw : ∀ c ∈ text, word c = word' c) (h : r.Occurs word text) :
    r.Occurs word' text := by
  obtain ⟨pre, m, post, rfl, hm⟩ := h
  obtain ⟨hpm, hpost⟩ := List.forall_mem_append.mp hw
  obtain ⟨hpre, hmid⟩ := List.forall_mem_append.mp hpm
  refine ⟨pre, m, post, rfl, ?_⟩
  rw [At, ← wordBefore_congr hpre, ← wordAfter_congr hpost]
  exact hm.congr hmid

end Congr

/-! ## Phrases -/

/-- One character of each class, in this order. -/
def literal (ps : List (α → Bool)) : Regex α := ps.foldr (fun p r => seq (char p) r) empty

/-- `r₁|…|rₙ` -/
def oneOf (rs : List (Regex α)) : Regex α := rs.foldr alt (char fun _ => false)

/-- `\b(r)\b` -/
def whole (r : Regex α) : Regex α := seq boundary (seq r boundary)

/-- `\b(r)\b p{0,n} \b(s)\b` -/
def near (r : Regex α) (n : Nat) (p : α → Bool) (s : Regex α) : Regex α :=
  seq (whole r) (seq (upTo n p) (whole s))

theorem matches_literal {ps : List (α → Bool)} {m : List α} :
    (literal ps).Matches word before m after ↔ List.Forall₂ (fun p c => p c = true) ps m := by
  induction ps generalizing before m with
  | nil => rw [List.forall₂_nil_left_iff]; rfl
  | cons p ps ih =>
    rw [List.forall₂_cons_left_iff]
    constructor
    · rintro ⟨_, m₂, rfl, ⟨c, rfl, hc⟩, hm⟩
      exact ⟨c, m₂, hc, ih.mp hm, rfl⟩
    · rintro ⟨c, m₂, hc, hm, rfl⟩
      exact ⟨[c], m₂, rfl, ⟨c, rfl, hc⟩, ih.mpr hm⟩

theorem matches_oneOf {rs : List (Regex α)} {m : List α} :
    (oneOf rs).Matches word before m after ↔ ∃ r ∈ rs, r.Matches word before m after := by
  induction rs with
  | nil =>
    constructor
    · rintro ⟨c, -, hc⟩
      cases hc
    · rintro ⟨r, hr, -⟩
      cases hr
  | cons r rs ih => rw [List.exists_mem_cons_iff, ← ih]; rfl

theorem matches_whole {m : List α} : (whole r).Matches word before m after ↔
    before ≠ wordAfter word after m ∧ r.Matches word before m after ∧
      wordBefore word before m ≠ after := by
  constructor
  · rintro ⟨_, _, rfl, ⟨rfl, hb⟩, m₁, _, rfl, hm, rfl, ha⟩
    rw [List.append_nil] at hb ⊢
    exact ⟨hb, hm, ha⟩
  · rintro ⟨hb, hm, ha⟩
    exact ⟨[], m, rfl, ⟨rfl, hb⟩, m, [], (List.append_nil m).symm, hm, rfl, ha⟩

theorem occurs_near {n : Nat} {p : α → Bool} : (near r n p s).Occurs word text ↔
    ∃ pre m₁ gap m₂ post, text = pre ++ m₁ ++ gap ++ m₂ ++ post ∧
      (whole r).At word pre m₁ (gap ++ m₂ ++ post) ∧ gap.length ≤ n ∧ (∀ c ∈ gap, p c = true) ∧
      (whole s).At word (pre ++ m₁ ++ gap) m₂ post := by
  unfold At
  constructor
  · rintro ⟨pre, _, post, rfl, m₁, _, rfl, hr, gap, m₂, rfl, ⟨hlen, hp⟩, hs⟩
    refine ⟨pre, m₁, gap, m₂, post, by simp only [List.append_assoc], ?_, hlen, hp, ?_⟩
    · rwa [wordAfter_append]
    · rwa [wordBefore_append, wordBefore_append]
  · rintro ⟨pre, m₁, gap, m₂, post, rfl, hr, hlen, hp, hs⟩
    refine ⟨pre, m₁ ++ (gap ++ m₂), post, by simp only [List.append_assoc], m₁, gap ++ m₂, rfl, ?_,
      gap, m₂, rfl, ⟨hlen, hp⟩, ?_⟩
    · rwa [wordAfter_append] at hr
    · rwa [wordBefore_append, wordBefore_append] at hs

/-! ## Walls

A wall is a text between two others into which no match reaches. -/

/-- Wherever the wall stands, a match of `r` ends before it or begins behind it. -/
def Clear (word : α → Bool) (r : Regex α) (wall : List α) : Prop :=
  ∀ {left right pre m post : List α} {before after : Bool},
    left ++ wall ++ right = pre ++ m ++ post → r.Matches word before m after →
    (pre ++ m).length ≤ left.length ∨ (left ++ wall).length ≤ pre.length

/-- The character behind a wall sees no word character in it. -/
def EndsOutside (word : α → Bool) (wall : List α) : Prop :=
  ∀ before, wordBefore word before wall = false

/-- The character before a wall sees no word character in it. -/
def BeginsOutside (word : α → Bool) (wall : List α) : Prop :=
  ∀ after, wordAfter word after wall = false

/-- `r` matches no empty text. -/
def Solid (word : α → Bool) (r : Regex α) : Prop := ∀ before after, ¬r.Matches word before [] after

theorem beginsOutside_of_head? {wall : List α} {c : α} (hc : wall.head? = some c)
    (hw : word c = false) : BeginsOutside word wall := by
  intro after
  obtain ⟨rest, rfl⟩ := List.head?_eq_some_iff.mp hc
  exact hw

theorem endsOutside_of_getLast? {wall : List α} {c : α} (hc : wall.getLast? = some c)
    (hw : word c = false) : EndsOutside word wall := by
  intro before
  obtain ⟨front, rfl⟩ := List.getLast?_eq_some_iff.mp hc
  rw [wordBefore_append]
  exact hw

theorem Solid.literal {ps : List (α → Bool)} (h : ps ≠ []) : Solid word (literal ps) := by
  intro before after hm
  rw [matches_literal, List.forall₂_nil_right_iff] at hm
  exact h hm

theorem Solid.oneOf {rs : List (Regex α)} (h : ∀ r ∈ rs, Solid word r) :
    Solid word (oneOf rs) := by
  intro before after hm
  obtain ⟨r, hr, hm⟩ := matches_oneOf.mp hm
  exact h r hr before after hm

theorem Solid.whole (h : Solid word r) : Solid word (whole r) :=
  fun before after hm => h before after (matches_whole.mp hm).2.1

theorem Solid.near {n : Nat} {p : α → Bool} (h : Solid word r) : Solid word (near r n p s) := by
  rintro before after ⟨m₁, m₂, hm, hr, -⟩
  obtain ⟨rfl, rfl⟩ := List.append_eq_nil_iff.mp hm.symm
  exact h.whole _ _ hr

theorem Clear.whole {wall : List α} (h : Clear word r wall) : Clear word (whole r) wall := by
  intro left right pre m post before after ht hm
  exact h ht (matches_whole.mp hm).2.1

theorem Clear.oneOf {rs : List (Regex α)} {wall : List α} (h : ∀ r ∈ rs, Clear word r wall) :
    Clear word (oneOf rs) wall := by
  intro left right pre m post before after ht hm
  obtain ⟨r, hr, hm⟩ := matches_oneOf.mp hm
  exact h r hr ht hm

/-- The classes and the characters agree as far as both go. -/
def agree : List (α → Bool) → List α → Bool
  | p :: ps, c :: cs => p c && agree ps cs
  | _, _ => true

/-- Laid over the wall from one of its characters on, the phrase agrees with it. -/
def entered (ps : List (α → Bool)) : List α → Bool
  | [] => false
  | c :: cs => agree ps (c :: cs) || entered ps cs

/-- No match of the phrase can have a character in the wall. -/
def barred (ps : List (α → Bool)) (wall : List α) : Bool :=
  !entered ps wall && ps.tails.all fun qs => qs.isEmpty || !agree qs wall

theorem agree_of_append {ps : List (α → Bool)} {m post wall right : List α}
    (hm : List.Forall₂ (fun p c => p c = true) ps m) (h : wall ++ right = m ++ post) :
    agree ps wall = true := by
  induction hm generalizing wall with
  | nil => cases wall <;> rfl
  | @cons p c ps m hc hm ih =>
    cases wall with
    | nil => rfl
    | cons d wall =>
      rw [List.cons_append, List.cons_append, List.cons.injEq] at h
      obtain ⟨rfl, h⟩ := h
      rw [agree, hc, Bool.true_and]
      exact ih h

theorem entered_of_agree {ps : List (α → Bool)} (front : List α) {c : α} {cs : List α}
    (h : agree ps (c :: cs) = true) : entered ps (front ++ c :: cs) = true := by
  induction front with
  | nil => rw [List.nil_append, entered, h, Bool.true_or]
  | cons d front ih => rw [List.cons_append, entered, ih, Bool.or_true]

theorem Clear.literal {ps : List (α → Bool)} {wall : List α} (h : barred ps wall = true) :
    Clear word (literal ps) wall := by
  intro left right pre m post before after ht hm
  rw [matches_literal] at hm
  rw [barred, Bool.and_eq_true, Bool.not_eq_true', List.all_eq_true] at h
  obtain ⟨hin, htails⟩ := h
  by_contra hside
  simp only [List.length_append, not_or, Nat.not_le] at hside
  obtain ⟨hend, hstart⟩ := hside
  rw [List.append_assoc, List.append_assoc] at ht
  rcases List.append_eq_append_iff.mp ht with ⟨front, rfl, hw⟩ | ⟨front, rfl, hw⟩
  · -- the match begins in the wall
    rw [List.length_append] at hstart
    obtain ⟨rest, rfl⟩ : front <+: wall :=
      List.prefix_of_prefix_length_le ⟨m ++ post, hw.symm⟩ ⟨right, rfl⟩ (by omega)
    rw [List.append_assoc] at hw
    cases rest with
    | nil => simp at hstart
    | cons c rest =>
      rw [entered_of_agree front (agree_of_append hm (List.append_cancel_left hw))] at hin
      cases hin
  · -- the match begins before the wall
    rw [List.length_append] at hend
    obtain ⟨rest, rfl⟩ : front <+: m :=
      List.prefix_of_prefix_length_le ⟨wall ++ right, hw.symm⟩ ⟨post, rfl⟩ (by omega)
    rw [List.append_assoc] at hw
    have hrest := List.forall₂_drop_append ps front rest hm
    have hqs := htails _ ((List.mem_tails _ _).mpr (List.drop_suffix front.length ps))
    rw [agree_of_append hrest (List.append_cancel_left hw).symm, Bool.not_true, Bool.or_false,
      List.isEmpty_iff] at hqs
    rw [hqs, List.forall₂_nil_left_iff] at hrest
    simp [hrest] at hend

/-- A wall that is longer than the gap separates the two phrases. -/
theorem Clear.near {n : Nat} {p : α → Bool} {wall : List α} (hr : Clear word r wall)
    (hs : Clear word s wall) (hn : n < wall.length) : Clear word (near r n p s) wall := by
  rintro left right pre _ post before after ht ⟨m₁, _, rfl, hm₁, g, m₂, rfl, ⟨hg, -⟩, hm₂⟩
  have ht₁ : left ++ wall ++ right = pre ++ m₁ ++ (g ++ m₂ ++ post) := by
    rw [ht]
    simp only [List.append_assoc]
  have ht₂ : left ++ wall ++ right = pre ++ m₁ ++ g ++ m₂ ++ post := by
    rw [ht]
    simp only [List.append_assoc]
  have h₁ := hr.whole ht₁ hm₁
  have h₂ := hs.whole ht₂ hm₂
  simp only [List.length_append] at h₁ h₂ ⊢
  omega

/-- **A match on one side of a wall is a match in that side alone.** -/
theorem occurs_wall_iff {left wall right : List α} (hc : Clear word r wall)
    (hb : BeginsOutside word wall) (he : EndsOutside word wall) :
    r.Occurs word (left ++ wall ++ right) ↔ r.Occurs word left ∨ r.Occurs word right := by
  constructor
  · rintro ⟨pre, m, post, ht, hm⟩
    have ht' : left ++ (wall ++ right) = pre ++ m ++ post := by rw [← List.append_assoc, ht]
    rcases hc ht hm with hside | hside
    · obtain ⟨rest, rfl⟩ : pre ++ m <+: left :=
        List.prefix_of_prefix_length_le ⟨post, rfl⟩ ⟨wall ++ right, ht'⟩ hside
      obtain rfl : post = rest ++ (wall ++ right) := by
        rw [List.append_assoc] at ht'
        exact (List.append_cancel_left ht').symm
      refine .inl ⟨pre, m, rest, rfl, hm.within [] _ rfl ?_⟩
      rw [wordAfter_append, hb]
    · obtain ⟨rest, rfl⟩ : left ++ wall <+: pre :=
        List.prefix_of_prefix_length_le ⟨right, ht⟩ ⟨m ++ post, (List.append_assoc ..).symm⟩ hside
      obtain rfl : right = rest ++ m ++ post := by
        simp only [List.append_assoc] at ht ⊢
        exact List.append_cancel_left (List.append_cancel_left ht)
      have hside : wordBefore word false (left ++ wall) = false := by
        rw [wordBefore_append, he]
      rw [← List.append_nil post] at hm
      exact .inr ⟨rest, m, post, rfl, hm.within _ [] hside rfl⟩
  · rintro (h | h)
    · have := h.embed [] (wall ++ right) rfl (by rw [wordAfter_append, hb])
      simpa only [List.nil_append, List.append_assoc] using this
    · have := h.embed (left ++ wall) [] (by rw [wordBefore_append, he]) rfl
      simpa only [List.append_nil] using this

/-- A wall in front of everything hides nothing and shows nothing. -/
theorem occurs_behind_iff {wall right : List α} (hc : Clear word r wall) (hs : Solid word r)
    (he : EndsOutside word wall) : r.Occurs word (wall ++ right) ↔ r.Occurs word right := by
  constructor
  · rintro ⟨pre, m, post, ht, hm⟩
    rcases @hc [] right pre m post _ _ ht hm with hside | hside
    · simp only [List.length_nil, Nat.le_zero, List.length_eq_zero_iff, List.append_eq_nil_iff]
        at hside
      rw [hside.2] at hm
      exact absurd hm (hs _ _)
    · obtain ⟨rest, rfl⟩ : wall <+: pre :=
        List.prefix_of_prefix_length_le ⟨right, ht⟩ ⟨m ++ post, (List.append_assoc ..).symm⟩ hside
      obtain rfl : right = rest ++ m ++ post := by
        simp only [List.append_assoc] at ht ⊢
        exact List.append_cancel_left ht
      rw [← List.append_nil post] at hm
      exact ⟨rest, m, post, rfl, hm.within _ [] (he false) rfl⟩
  · intro h
    have := h.embed wall [] (he false) rfl
    rwa [List.append_nil] at this

end Regex

end AgenticDelivery.Data
