import AgenticDelivery.Data.Regex

/-! # Replacing the matches of a pattern

A pattern with greedy runs is a sequence of parts: expressions, and runs `p{n,}`.
A scan goes through a text once, takes at each place the first way to match that
backtracking finds, and goes on behind it: the pieces of a text are its matches and
the characters between them. Substitution puts a text in place of each match. -/
namespace AgenticDelivery.Data
open Regex (wordBefore wordAfter)

inductive Part (α : Type)
  | one (r : Regex α)
  /-- `p{n,}` -/
  | run (n : Nat) (p : α → Bool)

variable {α : Type}

/-- What `Regex.Matches` is for an expression. -/
def Part.Matches (word : α → Bool) : Part α → Bool → List α → Bool → Prop
  | one r, before, m, after => r.Matches word before m after
  | run n p, _, m, _ => n ≤ m.length ∧ ∀ c ∈ m, p c = true

/-- The ways to match `p{n,}` at the front, the longest first. -/
def runEnds (word p : α → Bool) : Nat → Bool → List α → List (Bool × List α)
  | n, before, [] => if n = 0 then [(before, [])] else []
  | n, before, c :: rest =>
    (if p c then runEnds word p (n - 1) (word c) rest else []) ++
      if n = 0 then [(before, c :: rest)] else []

/-- The ways to match at the front of a text, in the order of backtracking. -/
def Part.ends (word : α → Bool) : Part α → Bool → List α → List (Bool × List α)
  | one r => r.ends word
  | run n p => runEnds word p n

/-- The parts of a pattern, in their order. -/
abbrev Parts (α : Type) := List (Part α)

namespace Parts

def Matches (word : α → Bool) : Parts α → Bool → List α → Bool → Prop
  | [], _, m, _ => m = []
  | part :: parts, before, m, after => ∃ m₁ m₂, m = m₁ ++ m₂ ∧
      part.Matches word before m₁ (wordAfter word after m₂) ∧
      Matches word parts (wordBefore word before m₁) m₂ after

def ends (word : α → Bool) : Parts α → Bool → List α → List (Bool × List α)
  | [], before, text => [(before, text)]
  | part :: parts, before, text =>
    (part.ends word before text).flatMap fun e => ends word parts e.1 e.2

/-- A match stands at the front of the text. -/
def Starts (word : α → Bool) (parts : Parts α) (before : Bool) (text : List α) : Prop :=
  ∃ m post, text = m ++ post ∧ parts.Matches word before m (wordAfter word false post)

/-- Some part of the text matches. -/
def Occurs (word : α → Bool) (parts : Parts α) (text : List α) : Prop :=
  ∃ pre post, text = pre ++ post ∧ parts.Starts word (wordBefore word false pre) post

end Parts

/-- A piece of a scanned text. -/
inductive Piece (α : Type)
  | kept (c : α)
  | hit (m : List α)

/-- The pieces of a text, from behind its first `skip` characters on. The pattern matches
no empty text. -/
def scan (word : α → Bool) (parts : Parts α) : Nat → Bool → List α → List (Piece α)
  | _, _, [] => []
  | skip + 1, _, c :: rest => scan word parts skip (word c) rest
  | 0, before, c :: rest =>
    match (parts.ends word before (c :: rest)).head? with
    | some e => .hit ((c :: rest).take (rest.length + 1 - e.2.length)) ::
        scan word parts (rest.length - e.2.length) (word c) rest
    | none => .kept c :: scan word parts 0 (word c) rest

/-- The text of the pieces, with `repl` in place of each match. -/
def render (repl : List α) : List (Piece α) → List α
  | [] => []
  | .kept c :: pieces => c :: render repl pieces
  | .hit _ :: pieces => repl ++ render repl pieces

/-- `pattern.sub(repl, text)` -/
def substitute (word : α → Bool) (parts : Parts α) (repl text : List α) : List α :=
  render repl (scan word parts 0 false text)

/-! ## The ways to match -/

variable {word p : α → Bool} {n : Nat} {part : Part α} {parts : Parts α} {before after : Bool}
  {text : List α} {e : Bool × List α}

theorem mem_runEnds : e ∈ runEnds word p n before text ↔
    ∃ m, text = m ++ e.2 ∧ e.1 = wordBefore word before m ∧ n ≤ m.length ∧
      ∀ c ∈ m, p c = true := by
  have here (n : Nat) (before : Bool) (text : List α) :
      (e ∈ if n = 0 then [(before, text)] else []) ↔ n = 0 ∧ e = (before, text) := by
    by_cases hn : n = 0
    · simp [hn]
    · simp [hn]
  induction text generalizing n before with
  | nil =>
    rw [runEnds, here]
    constructor
    · intro ⟨hn, he⟩
      subst hn he
      exact ⟨[], rfl, rfl, Nat.le_refl _, nofun⟩
    · intro ⟨m, ht, hb, hn, _⟩
      obtain ⟨rfl, he⟩ := List.append_eq_nil_iff.mp ht.symm
      exact ⟨Nat.le_zero.mp hn, Prod.ext hb he⟩
  | cons c rest ih =>
    rw [runEnds, List.mem_append, here]
    constructor
    · intro h
      rcases h with h | ⟨hn, he⟩
      · split at h
        · rename_i hc
          obtain ⟨m, rfl, hb, hn, hp⟩ := ih.mp h
          refine ⟨c :: m, rfl, hb, ?_, List.forall_mem_cons.mpr ⟨hc, hp⟩⟩
          rw [List.length_cons]
          omega
        · cases h
      · subst hn he
        exact ⟨[], rfl, rfl, Nat.le_refl _, nofun⟩
    · intro ⟨m, ht, hb, hn, hp⟩
      cases m with
      | nil => exact .inr ⟨Nat.le_zero.mp hn, Prod.ext hb ht.symm⟩
      | cons d m =>
        obtain ⟨rfl, rfl⟩ := List.cons.inj ht
        obtain ⟨hc, hp⟩ := List.forall_mem_cons.mp hp
        rw [List.length_cons] at hn
        refine .inl ?_
        rw [if_pos hc]
        exact ih.mpr ⟨m, rfl, hb, by omega, hp⟩

/-- The first way to match a run takes all of it. -/
theorem head?_runEnds (h : (runEnds word p n before text).head? = some e) :
    ∀ c ∈ e.2.head?, p c = false := by
  induction text generalizing n before with
  | nil =>
    rw [runEnds] at h
    by_cases hn : n = 0
    · simp only [hn, if_true, List.head?_cons, Option.some.injEq] at h
      simp [← h]
    · simp [hn] at h
  | cons c rest ih =>
    rw [runEnds, List.head?_append, Option.or_eq_some_iff] at h
    rcases h with h | ⟨hnone, h⟩
    · split at h
      · exact ih h
      · cases h
    · by_cases hn : n = 0
      · simp only [hn, if_true, List.head?_cons, Option.some.injEq] at h
        subst hn h
        intro d hd
        obtain rfl : c = d := by simpa using hd
        -- had it been of the class, the rest would have been tried first
        by_contra hc
        rw [Bool.not_eq_false] at hc
        rw [if_pos hc, List.head?_eq_none_iff, List.eq_nil_iff_forall_not_mem] at hnone
        exact hnone (word c, rest) (mem_runEnds.mpr ⟨[], rfl, rfl, Nat.zero_le _, nofun⟩)
      · simp [hn] at h

theorem Part.mem_ends : e ∈ part.ends word before text ↔
    ∃ m, text = m ++ e.2 ∧ e.1 = wordBefore word before m ∧
      part.Matches word before m (wordAfter word false e.2) := by
  cases part with
  | one r => exact Regex.mem_ends
  | run n p => exact mem_runEnds

/-- The ways to match give the matches, and only these. -/
theorem Parts.mem_ends : e ∈ parts.ends word before text ↔
    ∃ m, text = m ++ e.2 ∧ e.1 = wordBefore word before m ∧
      parts.Matches word before m (wordAfter word false e.2) := by
  induction parts generalizing before text with
  | nil =>
    rw [ends, List.mem_singleton]
    constructor
    · intro he
      subst he
      exact ⟨[], rfl, rfl, rfl⟩
    · intro ⟨m, ht, hb, hm⟩
      cases hm
      exact Prod.ext hb ht.symm
  | cons part parts ih =>
    simp only [ends, List.mem_flatMap, Matches]
    constructor
    · intro ⟨e', he', he⟩
      obtain ⟨m₁, rfl, hb₁, hm₁⟩ := Part.mem_ends.mp he'
      obtain ⟨m₂, ht₂, hb₂, hm₂⟩ := ih.mp he
      refine ⟨m₁ ++ m₂, by rw [ht₂, List.append_assoc], ?_, m₁, m₂, rfl, ?_, ?_⟩
      · rw [hb₂, hb₁, Regex.wordBefore_append]
      · rwa [ht₂, Regex.wordAfter_append] at hm₁
      · rwa [hb₁] at hm₂
    · intro ⟨m, ht, hb, m₁, m₂, hm, hm₁, hm₂⟩
      subst hm
      refine ⟨(wordBefore word before m₁, m₂ ++ e.2), Part.mem_ends.mpr ⟨m₁, ?_, rfl, ?_⟩,
        ih.mpr ⟨m₂, rfl, ?_, hm₂⟩⟩
      · rw [ht, List.append_assoc]
      · rwa [Regex.wordAfter_append]
      · rw [hb, Regex.wordBefore_append]

theorem Parts.starts_iff :
    parts.Starts word before text ↔ ∃ e, e ∈ parts.ends word before text := by
  constructor
  · intro ⟨m, post, ht, hm⟩
    exact ⟨(wordBefore word before m, post), Parts.mem_ends.mpr ⟨m, ht, rfl, hm⟩⟩
  · intro ⟨e, he⟩
    obtain ⟨m, ht, -, hm⟩ := Parts.mem_ends.mp he
    exact ⟨m, e.2, ht, hm⟩

/-- A match at the front, part by part. -/
theorem Parts.starts_cons : Starts word (part :: parts) before text ↔
    ∃ m rest, text = m ++ rest ∧ part.Matches word before m (wordAfter word false rest) ∧
      parts.Starts word (wordBefore word before m) rest := by
  constructor
  · intro ⟨_, post, ht, m, m₂, hm, hpart, hparts⟩
    subst hm
    refine ⟨m, m₂ ++ post, by rw [ht, List.append_assoc], ?_, m₂, post, rfl, hparts⟩
    rwa [Regex.wordAfter_append]
  · intro ⟨m, _, ht, hpart, m₂, post, hrest, hparts⟩
    subst hrest
    refine ⟨m ++ m₂, post, by rw [ht, List.append_assoc], m, m₂, rfl, ?_, hparts⟩
    rwa [Regex.wordAfter_append] at hpart

theorem Parts.starts_nil : Starts word [] before text := ⟨[], text, rfl, rfl⟩

instance : Decidable (parts.Starts word before text) :=
  decidable_of_iff ((parts.ends word before text).isEmpty = false)
    (List.isEmpty_eq_false_iff_exists_mem.trans Parts.starts_iff.symm)

/-- The first way to match a pattern that ends in a run takes all of the run. -/
theorem Parts.head?_ends_run
    (h : (Parts.ends word (parts ++ [.run n p]) before text).head? = some e) :
    ∀ c ∈ e.2.head?, p c = false := by
  induction parts generalizing before text with
  | nil =>
    simp only [List.nil_append, ends, Part.ends, List.flatMap_singleton'] at h
    exact head?_runEnds h
  | cons part parts ih =>
    rw [List.cons_append, ends, List.head?_flatMap] at h
    obtain ⟨e', -, he'⟩ := List.exists_of_findSome?_eq_some h
    exact ih he'

/-! ## The scan -/

/-- How a text is cut into pieces: a character is kept where it is `free`, and the part
that is `found` at a place is hit. -/
inductive Scanned (word : α → Bool) (free : Bool → List α → Prop)
    (found : Bool → List α → List α → Prop) : Bool → List α → List (Piece α) → Prop
  | nil {before : Bool} : Scanned word free found before [] []
  | kept {before : Bool} {c : α} {rest : List α} {pieces : List (Piece α)} :
      free before (c :: rest) → Scanned word free found (word c) rest pieces →
      Scanned word free found before (c :: rest) (.kept c :: pieces)
  | hit {before : Bool} {m rest : List α} {pieces : List (Piece α)} :
      found before m rest → Scanned word free found (wordBefore word before m) rest pieces →
      Scanned word free found before (m ++ rest) (.hit m :: pieces)

/-- The first way to match at the front of `m ++ rest` is `m`. -/
def Parts.Finds (word : α → Bool) (parts : Parts α) (before : Bool) (m rest : List α) : Prop :=
  m ≠ [] ∧
    (parts.ends word before (m ++ rest)).head? = some (wordBefore word before m, rest)

theorem Parts.Finds.matches {m rest : List α} (h : parts.Finds word before m rest) :
    parts.Matches word before m (wordAfter word false rest) := by
  obtain ⟨m', hm, -, hmatch⟩ := mem_ends.mp (List.mem_of_head? h.2)
  rwa [List.append_cancel_right hm]

theorem Parts.Finds.starts {m rest : List α} (h : parts.Finds word before m rest) :
    parts.Starts word before (m ++ rest) :=
  ⟨m, rest, rfl, h.matches⟩

theorem scan_skip (skip : Nat) (before : Bool) (text : List α) :
    scan word parts skip before text =
      scan word parts 0 (wordBefore word before (text.take skip)) (text.drop skip) := by
  induction text generalizing skip before with
  | nil => simp [scan]
  | cons c rest ih =>
    cases skip with
    | zero => rfl
    | succ skip => simp [scan, ih]

/-- The pattern matches no empty text. -/
def Parts.Solid (word : α → Bool) (parts : Parts α) : Prop :=
  ∀ before after, ¬parts.Matches word before [] after

theorem Parts.solid_of_mem (h : .run (n + 1) p ∈ parts) : parts.Solid word := by
  induction parts with
  | nil => cases h
  | cons part parts ih =>
    intro before after ⟨m₁, m₂, hm, hpart, hparts⟩
    obtain ⟨rfl, rfl⟩ := List.append_eq_nil_iff.mp hm.symm
    rcases List.mem_cons.mp h with rfl | h
    · exact absurd hpart.1 (Nat.not_succ_le_zero n)
    · exact ih h _ _ hparts

/-- **What a scan does.** -/
theorem scanned_scan (hs : parts.Solid word) (before : Bool) (text : List α) :
    Scanned word (fun b t => ¬parts.Starts word b t) (parts.Finds word) before text
      (scan word parts 0 before text) := by
  induction hlen : text.length using Nat.strong_induction_on generalizing before text with
  | _ n ih =>
    cases text with
    | nil => exact .nil
    | cons c rest =>
      rw [List.length_cons] at hlen
      rw [scan]
      cases he : (parts.ends word before (c :: rest)).head? with
      | none =>
        refine .kept ?_ (ih rest.length (by omega) _ _ rfl)
        rw [Parts.starts_iff]
        intro ⟨e, hmem⟩
        rw [List.head?_eq_none_iff.mp he] at hmem
        cases hmem
      | some e =>
        obtain ⟨m, ht, hb, hm⟩ := Parts.mem_ends.mp (List.mem_of_head? he)
        cases m with
        | nil => exact absurd hm (hs _ _)
        | cons d m =>
          obtain rfl : c = d := (List.cons.inj ht).1
          have hrest : rest = m ++ e.2 := (List.cons.inj ht).2
          have hskip : rest.length - e.2.length = m.length := by
            rw [hrest, List.length_append]
            omega
          have htake : rest.length + 1 - e.2.length = m.length + 1 := by
            rw [hrest, List.length_append]
            omega
          have hfound : parts.Finds word before (c :: m) e.2 := by
            refine ⟨List.cons_ne_nil _ _, ?_⟩
            rw [List.cons_append, ← hrest, he, ← hb]
          have hnext := ih e.2.length (by
            rw [hrest, List.length_append] at hlen
            omega) (wordBefore word before (c :: m)) e.2 rfl
          simp only [hskip, htake, scan_skip m.length]
          rw [hrest]
          simpa using Scanned.hit hfound hnext

/-! ## Texts without a match -/

/-- `Q` holds at no place of the text. -/
def Nowhere (word : α → Bool) (Q : Bool → List α → Prop) : Bool → List α → Prop
  | before, [] => ¬Q before []
  | before, c :: rest => ¬Q before (c :: rest) ∧ Nowhere word Q (word c) rest

variable {Q : Bool → List α → Prop} {free : Bool → List α → Prop}
  {found : Bool → List α → List α → Prop} {pieces : List (Piece α)} {repl : List α}

theorem nowhere_iff : Nowhere word Q before text ↔
    ∀ pre post, text = pre ++ post → ¬Q (wordBefore word before pre) post := by
  induction text generalizing before with
  | nil =>
    constructor
    · intro h pre post ht
      obtain ⟨rfl, rfl⟩ := List.append_eq_nil_iff.mp ht.symm
      exact h
    · intro h
      exact h [] [] rfl
  | cons c rest ih =>
    rw [Nowhere, ih]
    constructor
    · intro ⟨hfirst, hrest⟩ pre post ht
      cases pre with
      | nil =>
        subst ht
        exact hfirst
      | cons d pre =>
        obtain ⟨rfl, rfl⟩ := List.cons.inj ht
        exact hrest pre post rfl
    · intro h
      exact ⟨h [] _ rfl, fun pre post ht => h (c :: pre) post (by rw [ht, List.cons_append])⟩

theorem nowhere_starts_iff : Nowhere word (parts.Starts word) false text ↔
    ¬parts.Occurs word text := by
  rw [nowhere_iff, Parts.Occurs]
  simp only [not_exists, not_and]

theorem Nowhere.drop {pre : List α} (h : Nowhere word Q before (pre ++ text)) :
    Nowhere word Q (wordBefore word before pre) text := by
  rw [nowhere_iff] at h ⊢
  intro front post ht
  have := h (pre ++ front) post (by rw [ht, List.append_assoc])
  rwa [Regex.wordBefore_append] at this

/-- In front of a text, `Q` holds at no place of `pre`. -/
theorem Nowhere.append {pre : List α} (hpre : ∀ b r, r ≠ [] → r <:+ pre → ¬Q b (r ++ text))
    (h : Nowhere word Q (wordBefore word before pre) text) :
    Nowhere word Q before (pre ++ text) := by
  induction pre generalizing before with
  | nil => exact h
  | cons c pre ih =>
    refine ⟨hpre before (c :: pre) (List.cons_ne_nil _ _) List.suffix_rfl, ih ?_ h⟩
    intro b r hr hs
    exact hpre b r hr (hs.trans (List.suffix_cons _ _))

/-- A text without a match stays as it is. -/
theorem substitute_eq_self (h : ¬parts.Occurs word text) :
    substitute word parts repl text = text := by
  rw [← nowhere_starts_iff] at h
  unfold substitute
  generalize false = before at h
  induction text generalizing before with
  | nil => rfl
  | cons c rest ih =>
    obtain ⟨hfirst, hrest⟩ := h
    rw [Parts.starts_iff, ← List.isEmpty_eq_false_iff_exists_mem, Bool.not_eq_false,
      List.isEmpty_iff] at hfirst
    rw [scan, hfirst, List.head?_nil, render, ih _ hrest]

/-! ## Matches of a rendered text -/

theorem Scanned.free_of_nowhere (h : Scanned word free found before text pieces)
    (hq : Nowhere word Q before text) :
    Scanned word (fun b t => ¬Q b t) found before text pieces := by
  induction h with
  | nil => exact .nil
  | kept _ _ ih => exact .kept hq.1 (ih hq.2)
  | hit hf _ ih => exact .hit hf (ih hq.drop)

/-- A front of the rendered text in which no replacement begins is a front of the text. -/
theorem Scanned.front (h : Scanned word free found before text pieces) {wall : α} {m tail : List α}
    (hwall : repl.head? = some wall) (hr : render repl pieces = m ++ tail) (hm : wall ∉ m) :
    ∃ rest pieces', text = m ++ rest ∧
      Scanned word free found (wordBefore word before m) rest pieces' ∧
      tail = render repl pieces' := by
  induction m generalizing before text pieces with
  | nil => exact ⟨text, pieces, rfl, h, hr.symm⟩
  | cons d m ih =>
    obtain ⟨hd, hback⟩ := not_or.mp (List.mem_cons.not.mp hm)
    cases h with
    | nil => cases hr
    | kept _ hrest =>
      obtain ⟨rfl, htail⟩ := List.cons.inj hr
      obtain ⟨rest', pieces', rfl, hs, ht⟩ := ih hrest htail hback
      exact ⟨rest', pieces', rfl, hs, ht⟩
    | hit _ _ =>
      obtain ⟨back, rfl⟩ := List.head?_eq_some_iff.mp hwall
      exact absurd (List.cons.inj hr).1 hd

/-- What `Q` must be like to hold nowhere in the rendered text, where it holds at no kept
character of the text itself. -/
structure Shielded (word : α → Bool) (Q : Bool → List α → Prop)
    (found : Bool → List α → List α → Prop) (repl : List α) : Prop where
  solid : ∀ b, ¬Q b []
  /-- At a kept character, it held in the text already. -/
  kept : ∀ {free b c rest pieces}, Scanned word free found (word c) rest pieces →
    Q b (c :: render repl pieces) → Q b (c :: rest)
  /-- It does not hold at a place of a replacement. -/
  inside : ∀ b r tail, r ≠ [] → r <:+ repl → ¬Q b (r ++ tail)
  /-- It does not hold behind a replacement. -/
  behind : ∀ {b m c rest}, found b m (c :: rest) → ∀ tail, ¬Q false (c :: tail)

theorem Scanned.nowhere (h : Scanned word (fun b t => ¬Q b t) found before text pieces)
    (hq : Shielded word Q found repl) (hne : repl ≠ [])
    (hend : ∀ b, wordBefore word b repl = false) :
    Nowhere word Q before (render repl pieces) := by
  suffices hany : ∀ b, b = before ∨ ¬Q b (render repl pieces) →
      Nowhere word Q b (render repl pieces) from hany before (.inl rfl)
  induction h with
  | nil =>
    intro b _
    exact hq.solid b
  | @kept before c rest pieces hfree hrest ih =>
    intro b hb
    refine ⟨?_, ih (word c) (.inl rfl)⟩
    rcases hb with rfl | hb
    · exact fun hQ => hfree (hq.kept hrest hQ)
    · exact hb
  | @hit before m rest pieces hf hrest ih =>
    intro b _
    refine Nowhere.append (fun b r hr hs => hq.inside b r _ hr hs) (ih _ (.inr ?_))
    rw [hend]
    cases hrest with
    | nil => exact hq.solid false
    | kept _ _ => exact hq.behind hf _
    | hit _ _ => exact hq.inside false repl _ hne List.suffix_rfl

/-! ## Patterns of a lead and one more character -/

/-- `Q` holds where a lead stands, with a character of the class behind it. -/
def Led (Q : Bool → List α → Prop) (lead : Bool → List α → Prop) (p : α → Bool) : Prop :=
  ∀ b text, Q b text ↔ ∃ front c rest, text = front ++ c :: rest ∧ lead b front ∧ p c = true

/-- A led pattern is shielded when no lead reaches a replacement or begins behind one, and
what stands at the begin of a replaced match is of the class if `wall` is. -/
theorem Led.shielded {lead : Bool → List α → Prop} {wall : α} (hq : Led Q lead p)
    (hwall : repl.head? = some wall)
    (hlead : ∀ b front, lead b front → front ≠ [] ∧ wall ∉ front)
    (hinside : ∀ b front r tail rest, lead b front → r ≠ [] → r <:+ repl →
      r ++ tail ≠ front ++ rest)
    (hbehind : ∀ b m c rest, found b m (c :: rest) → ∀ front, ¬lead false (c :: front))
    (hfirst : ∀ b m rest, found b m rest → p wall = true → ∃ c back, m = c :: back ∧ p c = true) :
    Shielded word Q found repl where
  solid b hb := by
    obtain ⟨front, c, rest, ht, -⟩ := (hq b []).mp hb
    simp at ht
  kept {free b d rest pieces} hs hb := by
    obtain ⟨front, c, back, ht, hl, hc⟩ := (hq _ _).mp hb
    obtain ⟨hne, hmem⟩ := hlead b front hl
    obtain ⟨d', front, rfl⟩ := List.exists_cons_of_ne_nil hne
    obtain ⟨rfl, hr⟩ := List.cons.inj ht
    obtain ⟨rest', pieces', rfl, hs', hr'⟩ :=
      hs.front hwall hr fun h => hmem (List.mem_cons_of_mem _ h)
    rw [hq]
    cases hs' with
    | nil => cases hr'
    | kept _ _ =>
      obtain ⟨rfl, -⟩ := List.cons.inj hr'
      exact ⟨_, _, _, rfl, hl, hc⟩
    | @hit _ m after _ hf _ =>
      -- the character behind the lead is the first of a match
      obtain ⟨tail, rfl⟩ := List.head?_eq_some_iff.mp hwall
      obtain rfl : c = wall := (List.cons.inj hr').1
      obtain ⟨e, back, rfl, he⟩ := hfirst _ _ _ hf hc
      exact ⟨_, e, back ++ after, rfl, hl, he⟩
  inside b r tail hr hs hb := by
    obtain ⟨front, c, rest, ht, hl, -⟩ := (hq _ _).mp hb
    exact hinside b front r tail (c :: rest) hl hr hs ht
  behind {b m c rest} hf tail hb := by
    obtain ⟨front, d, back, ht, hl, -⟩ := (hq _ _).mp hb
    obtain ⟨e, front, rfl⟩ := List.exists_cons_of_ne_nil (hlead false front hl).1
    obtain ⟨rfl, -⟩ := List.cons.inj ht
    exact hbehind b m c rest hf front hl

end AgenticDelivery.Data
