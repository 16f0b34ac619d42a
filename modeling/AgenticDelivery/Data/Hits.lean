import AgenticDelivery.Data.Scan

/-! # Where a scan hits

The hits of a scan by their positions: they lie apart, each is the longest match
at its place, and every match begins in one. -/
namespace AgenticDelivery.Data
open Regex (wordBefore wordAfter)

variable {α : Type}

/-- The text that the pieces are of. -/
def source : List (Piece α) → List α
  | [] => []
  | .kept c :: pieces => c :: source pieces
  | .hit m :: pieces => m ++ source pieces

/-- The scan hits the part from `i` to `j`. -/
def Hit (word : α → Bool) (parts : Parts α) (text : List α) (i j : Nat) : Prop :=
  ∃ front m back, scan word parts 0 false text = front ++ .hit m :: back ∧
    (source front).length = i ∧ i + m.length = j

/-- The scan hits a part that the position `p` is in. -/
def Covered (word : α → Bool) (parts : Parts α) (text : List α) (p : Nat) : Prop :=
  ∃ i j, Hit word parts text i j ∧ i ≤ p ∧ p < j

def segment (text : List α) (i j : Nat) : List α := (text.take j).drop i

/-- The pattern matches the part from `i` to `j`. -/
def MatchesAt (word : α → Bool) (parts : Parts α) (text : List α) (i j : Nat) : Prop :=
  i < j ∧ j ≤ text.length ∧ parts.Matches word (wordBefore word false (text.take i))
    (segment text i j) (wordAfter word false (text.drop j))

/-- No match is longer than the one that is found first. -/
def Parts.Longest (word : α → Bool) (parts : Parts α) : Prop :=
  ∀ {before m rest m' rest'}, parts.Finds word before m rest → m ++ rest = m' ++ rest' →
    parts.Matches word before m' (wordAfter word false rest') → m'.length ≤ m.length

/-- The parts `hit` are the longest ones, from the left, of those that fit. -/
structure LeftmostLongest (fits hit : Nat → Nat → Prop) : Prop where
  fits_of_hit : ∀ {i j}, hit i j → fits i j
  longest : ∀ {i j j'}, hit i j → fits i j' → j' ≤ j
  complete : ∀ {i j}, fits i j → ∃ i' j', hit i' j' ∧ i' ≤ i ∧ i < j'
  apart : ∀ {i j i' j'}, hit i j → hit i' j' → i ≤ i' → i' < j → i = i' ∧ j = j'

/-- The parts that a position is in are one. -/
theorem LeftmostLongest.same {fits hit : Nat → Nat → Prop} (h : LeftmostLongest fits hit)
    {i j i' j' q : Nat} (hh : hit i j) (hh' : hit i' j') (hi : i ≤ q) (hj : q < j) (hi' : i' ≤ q)
    (hj' : q < j') : i = i' ∧ j = j' := by
  rcases Nat.le_total i i' with hle | hle
  · exact h.apart hh hh' hle (by omega)
  · obtain ⟨rfl, rfl⟩ := h.apart hh' hh hle (by omega)
    exact ⟨rfl, rfl⟩

/-! ## Pieces and positions -/

variable {word : α → Bool} {parts : Parts α} {before : Bool} {text : List α}
  {free : Bool → List α → Prop} {found : Bool → List α → List α → Prop}
  {pieces : List (Piece α)}

@[simp] theorem source_append (front back : List (Piece α)) :
    source (front ++ back) = source front ++ source back := by
  induction front with
  | nil => rfl
  | cons piece front ih =>
    cases piece with
    | kept c => simp [source, ih]
    | hit m => simp [source, ih]

theorem Scanned.source_eq (h : Scanned word free found before text pieces) :
    source pieces = text := by
  induction h with
  | nil => rfl
  | kept _ _ ih => rw [source, ih]
  | hit _ _ ih => rw [source, ih]

/-- What is hit was found there. -/
theorem Scanned.found_of_hit {front back : List (Piece α)} {m : List α}
    (h : Scanned word free found before text pieces) (hp : pieces = front ++ .hit m :: back) :
    found (wordBefore word before (source front)) m (source back) := by
  induction h generalizing front with
  | nil => simp at hp
  | kept _ _ ih =>
    cases front with
    | nil => cases hp
    | cons piece front =>
      obtain ⟨rfl, hrest⟩ := List.cons.inj hp
      exact ih hrest
  | hit hf hrest ih =>
    cases front with
    | nil =>
      obtain ⟨heq, rfl⟩ := List.cons.inj hp
      cases heq
      rw [hrest.source_eq]
      exact hf
    | cons piece front =>
      obtain ⟨rfl, hback⟩ := List.cons.inj hp
      rw [source, Regex.wordBefore_append]
      exact ih hback

/-- A place that is not free lies in a part that is hit. -/
theorem Scanned.exists_hit (h : Scanned word free found before text pieces) {pre post : List α}
    (ht : text = pre ++ post) (hpost : post ≠ [])
    (hfree : ¬free (wordBefore word before pre) post) :
    ∃ front m back, pieces = front ++ .hit m :: back ∧ (source front).length ≤ pre.length ∧
      pre.length < (source front).length + m.length := by
  induction h generalizing pre with
  | nil =>
    obtain ⟨-, rfl⟩ := List.append_eq_nil_iff.mp ht.symm
    exact absurd rfl hpost
  | kept hf _ ih =>
    cases pre with
    | nil =>
      rw [List.nil_append] at ht
      rw [ht] at hf
      exact absurd hf hfree
    | cons d pre =>
      obtain ⟨rfl, hrest⟩ := List.cons.inj ht
      obtain ⟨front, m, back, rfl, hle, hlt⟩ := ih hrest hfree
      refine ⟨_ :: front, m, back, rfl, ?_, ?_⟩
      · simp only [source, List.length_cons]
        omega
      · simp only [source, List.length_cons]
        omega
  | @hit _ m rest pieces _ _ ih =>
    by_cases hin : pre.length < m.length
    · exact ⟨[], m, pieces, rfl, Nat.zero_le _, by simpa [source] using hin⟩
    · -- the place lies behind this part
      obtain ⟨back, rfl⟩ : m <+: pre :=
        List.prefix_of_prefix_length_le ⟨rest, rfl⟩ ⟨post, ht.symm⟩ (Nat.le_of_not_lt hin)
      rw [List.append_assoc] at ht
      rw [Regex.wordBefore_append] at hfree
      obtain ⟨front, m', back', rfl, hle, hlt⟩ := ih (List.append_cancel_left ht) hfree
      refine ⟨.hit m :: front, m', back', rfl, ?_, ?_⟩
      · simp only [source, List.length_append]
        omega
      · simp only [source, List.length_append]
        omega

/-- Two parts that are hit are the same or lie apart. -/
theorem hits_apart {front back front' back' : List (Piece α)} {m m' : List α}
    (h : front ++ .hit m :: back = front' ++ .hit m' :: back') (hm : m' ≠ [])
    (hle : (source front).length ≤ (source front').length)
    (hlt : (source front').length < (source front).length + m.length) :
    front = front' ∧ m = m' := by
  rcases List.append_eq_append_iff.mp h with ⟨mid, rfl, hmid⟩ | ⟨mid, rfl, hmid⟩
  · cases mid with
    | nil =>
      have := (List.cons.inj hmid).1
      simp_all
    | cons piece mid =>
      obtain ⟨rfl, -⟩ := List.cons.inj hmid
      simp only [source_append, source, List.length_append] at hlt
      omega
  · cases mid with
    | nil =>
      have := (List.cons.inj hmid).1
      simp_all
    | cons piece mid =>
      obtain ⟨rfl, -⟩ := List.cons.inj hmid
      have hpos := List.length_pos_of_ne_nil hm
      simp only [source_append, source, List.length_append] at hle
      omega

/-- Where the pattern matches, it finds something. -/
theorem Parts.Solid.finds (hs : parts.Solid word) (h : parts.Starts word before text) :
    ∃ m rest, text = m ++ rest ∧ parts.Finds word before m rest := by
  obtain ⟨e, he⟩ := Parts.starts_iff.mp h
  cases hhead : (parts.ends word before text).head? with
  | none =>
    rw [List.head?_eq_none_iff.mp hhead] at he
    cases he
  | some e =>
    obtain ⟨m, rfl, hb, hm⟩ := Parts.mem_ends.mp (List.mem_of_head? hhead)
    refine ⟨m, e.2, rfl, ?_, by rw [hhead, ← hb]⟩
    rintro rfl
    exact hs _ _ hm

/-! ## The hits of a scan -/

theorem length_segment {i j : Nat} (hj : j ≤ text.length) :
    (segment text i j).length = j - i := by
  rw [segment, List.length_drop, List.length_take, Nat.min_eq_left hj]

theorem take_segment_drop {i j : Nat} (hi : i ≤ j) :
    text = text.take i ++ segment text i j ++ text.drop j := by
  have h : text.take i ++ segment text i j = text.take j := by
    have := List.take_append_drop i (text.take j)
    rwa [List.take_take, Nat.min_eq_left hi] at this
  rw [h, List.take_append_drop]

theorem segment_of_parts (pre m post : List α) :
    segment (pre ++ m ++ post) pre.length (pre.length + m.length) = m := by
  rw [segment, ← List.length_append, List.take_left, List.drop_left]

theorem hit_finds (hs : parts.Solid word) {i j : Nat} (h : Hit word parts text i j) :
    ∃ pre m post, text = pre ++ m ++ post ∧ pre.length = i ∧ i + m.length = j ∧
      parts.Finds word (wordBefore word false pre) m post := by
  obtain ⟨front, m, back, hp, hi, hj⟩ := h
  have hscan := scanned_scan hs false text
  refine ⟨source front, m, source back, ?_, hi, hj, hscan.found_of_hit hp⟩
  rw [← hscan.source_eq, hp, source_append, source, List.append_assoc]

theorem matchesAt_of_parts {pre m post : List α} (hm : m ≠ [])
    (h : parts.Matches word (wordBefore word false pre) m (wordAfter word false post)) :
    MatchesAt word parts (pre ++ m ++ post) pre.length (pre.length + m.length) := by
  have hpos := List.length_pos_of_ne_nil hm
  refine ⟨by omega, by simp, ?_⟩
  rw [segment_of_parts, ← List.length_append, List.drop_left, List.append_assoc, List.take_left]
  exact h

/-- **The hits of a scan are the longest matches from the left.** -/
theorem leftmostLongest (hs : parts.Solid word) (hl : parts.Longest word) (text : List α) :
    LeftmostLongest (MatchesAt word parts text) (Hit word parts text) where
  fits_of_hit h := by
    obtain ⟨pre, m, post, rfl, rfl, rfl, hf⟩ := hit_finds hs h
    exact matchesAt_of_parts hf.1 hf.matches
  longest {i j j'} h hmatch := by
    obtain ⟨pre, m, post, rfl, rfl, rfl, hf⟩ := hit_finds hs h
    obtain ⟨hlt, hle, hm⟩ := hmatch
    have hcut := @take_segment_drop _ (pre ++ m ++ post) _ _ (Nat.le_of_lt hlt)
    rw [List.append_assoc pre, List.take_left, List.append_assoc pre] at hcut
    have hlen := hl hf (List.append_cancel_left hcut) (by
      rwa [List.append_assoc, List.take_left] at hm)
    rw [length_segment (by simpa using hle)] at hlen
    omega
  complete {i j} hmatch := by
    obtain ⟨hlt, hle, hm⟩ := hmatch
    have hcut : text.drop i = segment text i j ++ text.drop j := by
      have := @take_segment_drop _ text _ _ (Nat.le_of_lt hlt)
      rw [List.append_assoc] at this
      exact List.append_cancel_left ((List.take_append_drop i text).trans this)
    have hstarts : parts.Starts word (wordBefore word false (text.take i)) (text.drop i) :=
      ⟨_, _, hcut, hm⟩
    have hne : text.drop i ≠ [] := by
      rw [ne_eq, List.drop_eq_nil_iff]
      omega
    obtain ⟨front, m, back, hp, hi, hj⟩ := (scanned_scan hs false text).exists_hit
      (List.take_append_drop i text).symm hne (not_not.mpr hstarts)
    rw [List.length_take, Nat.min_eq_left (by omega)] at hi hj
    exact ⟨_, _, ⟨front, m, back, hp, rfl, rfl⟩, hi, hj⟩
  apart h h' hle hlt := by
    obtain ⟨front, m, back, hp, hi, hj⟩ := h
    obtain ⟨front', m', back', hp', hi', hj'⟩ := h'
    have hne := ((scanned_scan hs false text).found_of_hit hp').1
    obtain ⟨rfl, rfl⟩ := hits_apart (hp.symm.trans hp') hne (by omega) (by omega)
    omega

/-! ## The first way to match, part by part -/

variable {part : Part α} {p : α → Bool} {n : Nat} {e : Bool × List α}

theorem Parts.head?_ends_cons
    (h : (Parts.ends word (part :: parts) before text).head? = some e) :
    ∃ m rest, text = m ++ rest ∧ part.Matches word before m (wordAfter word false rest) ∧
      (parts.ends word (wordBefore word before m) rest).head? = some e := by
  rw [ends, List.head?_flatMap] at h
  obtain ⟨e', hmem, he⟩ := List.exists_of_findSome?_eq_some h
  obtain ⟨m, ht, hb, hm⟩ := Part.mem_ends.mp hmem
  refine ⟨m, e'.2, ht, hm, ?_⟩
  rwa [← hb]

/-- A run is as long as the parts behind it let it be. -/
theorem Parts.head?_ends_run_cons
    (h : (Parts.ends word (.run n p :: parts) before text).head? = some e) :
    ∃ m rest, text = m ++ rest ∧ (n ≤ m.length ∧ ∀ c ∈ m, p c = true) ∧
      (parts.ends word (wordBefore word before m) rest).head? = some e ∧
      ∀ m' rest', text = m' ++ rest' → n ≤ m'.length → (∀ c ∈ m', p c = true) →
        parts.Starts word (wordBefore word before m') rest' → m'.length ≤ m.length := by
  rw [ends, Part.ends] at h
  induction text generalizing n before with
  | nil =>
    obtain ⟨e', hmem, he⟩ := List.exists_of_findSome?_eq_some (List.head?_flatMap .. ▸ h)
    obtain ⟨m, ht, hb, hn, hp⟩ := mem_runEnds.mp hmem
    refine ⟨m, e'.2, ht, ⟨hn, hp⟩, by rwa [← hb], ?_⟩
    intro m' rest' ht' _ _ _
    rw [(List.append_eq_nil_iff.mp ht'.symm).1]
    exact Nat.zero_le _
  | cons c rest ih =>
    rw [runEnds, List.flatMap_append, List.head?_append, Option.or_eq_some_iff] at h
    rcases h with h | ⟨hnone, h⟩
    · -- the run goes on
      by_cases hc : p c = true
      · rw [if_pos hc] at h
        obtain ⟨m, rest', rfl, ⟨hn, hp⟩, he, hmax⟩ := ih h
        refine ⟨c :: m, rest', rfl, ⟨?_, List.forall_mem_cons.mpr ⟨hc, hp⟩⟩, he, ?_⟩
        · rw [List.length_cons]
          omega
        · intro m' rest₂ ht hn' hp' hs
          cases m' with
          | nil => exact Nat.zero_le _
          | cons d m' =>
            obtain ⟨rfl, ht'⟩ := List.cons.inj ht
            rw [List.length_cons] at hn' ⊢
            have := hmax m' rest₂ ht' (by omega) (List.forall_mem_cons.mp hp').2 hs
            rw [List.length_cons]
            omega
      · rw [if_neg hc] at h
        cases h
    · by_cases hn : n = 0
      · rw [if_pos hn, List.flatMap_singleton] at h
        refine ⟨[], c :: rest, rfl, ⟨Nat.le_of_eq hn, List.forall_mem_nil _⟩, h, ?_⟩
        intro m' rest' ht _ hp' hs
        cases m' with
        | nil => exact Nat.le_refl _
        | cons d m' =>
          obtain ⟨rfl, ht'⟩ := List.cons.inj ht
          obtain ⟨hc, hp'⟩ := List.forall_mem_cons.mp hp'
          obtain ⟨e₂, he₂⟩ := Parts.starts_iff.mp hs
          rw [if_pos hc, List.head?_eq_none_iff, List.flatMap_eq_nil_iff] at hnone
          have := hnone (wordBefore word (word c) m', rest')
            (mem_runEnds.mpr ⟨m', ht', rfl, by omega, hp'⟩)
          rw [Regex.wordBefore_cons, this] at he₂
          cases he₂
      · rw [if_neg hn] at h
        cases h

/-! ## Patterns of a lead and a run -/

/-- A match is a lead and a run of the class behind it, as far as the class goes. -/
structure Parts.LedBy (word : α → Bool) (parts : Parts α) (lead : Bool → List α → Prop)
    (p : α → Bool) : Prop where
  matches_iff : ∀ {b m after}, parts.Matches word b m after ↔
    ∃ front run, m = front ++ run ∧ lead b front ∧ run ≠ [] ∧ ∀ c ∈ run, p c = true
  takes : ∀ {b m rest}, parts.Finds word b m rest → ∀ c ∈ rest.head?, p c = false
  unique : ∀ {b front front' c c' rest rest'}, lead b front → lead b front' →
    p c = true → p c' = true → front ++ c :: rest = front' ++ c' :: rest' → front = front'

theorem takeWhile_run {p : α → Bool} {run rest : List α} (hrun : ∀ c ∈ run, p c = true)
    (hrest : ∀ c ∈ rest.head?, p c = false) : (run ++ rest).takeWhile p = run := by
  rw [List.takeWhile_append_of_pos hrun]
  cases rest with
  | nil => simp
  | cons c rest => simp [hrest c rfl]

namespace Parts.LedBy
variable {lead : Bool → List α → Prop} {p : α → Bool} (hled : parts.LedBy word lead p)
include hled

/-- Two matches at a place have one lead. -/
theorem same_lead {b : Bool} {front front' run run' rest rest' : List α} (hl : lead b front)
    (hl' : lead b front') (hne : run ≠ []) (hne' : run' ≠ []) (hrun : ∀ c ∈ run, p c = true)
    (hrun' : ∀ c ∈ run', p c = true)
    (heq : front ++ run ++ rest = front' ++ run' ++ rest') :
    front = front' ∧ run ++ rest = run' ++ rest' := by
  obtain ⟨c, run, rfl⟩ := List.exists_cons_of_ne_nil hne
  obtain ⟨c', run', rfl⟩ := List.exists_cons_of_ne_nil hne'
  rw [List.append_assoc, List.append_assoc] at heq
  obtain rfl := hled.unique hl hl' (hrun c List.mem_cons_self) (hrun' c' List.mem_cons_self) heq
  exact ⟨rfl, List.append_cancel_left heq⟩

theorem longest : parts.Longest word := by
  intro b m rest m' rest' hf heq hm'
  obtain ⟨front, run, rfl, hl, hne, hrun⟩ := hled.matches_iff.mp hf.matches
  obtain ⟨front', run', rfl, hl', hne', hrun'⟩ := hled.matches_iff.mp hm'
  obtain ⟨rfl, hback⟩ := hled.same_lead hl hl' hne hne' hrun hrun' heq
  have hprefix : run' <+: run := by
    rw [← takeWhile_run hrun (hled.takes hf), hback, List.takeWhile_append_of_pos hrun']
    exact List.prefix_append _ _
  have := hprefix.length_le
  simp only [List.length_append]
  omega

theorem finds_iff (hs : parts.Solid word) {b : Bool} {m rest : List α} :
    parts.Finds word b m rest ↔
      (∃ front run, m = front ++ run ∧ lead b front ∧ run ≠ [] ∧ ∀ c ∈ run, p c = true) ∧
        ∀ c ∈ rest.head?, p c = false := by
  constructor
  · intro hf
    exact ⟨hled.matches_iff.mp hf.matches, hled.takes hf⟩
  · intro ⟨hm, hrest⟩
    have hstarts : parts.Starts word b (m ++ rest) := ⟨m, rest, rfl, hled.matches_iff.mpr hm⟩
    obtain ⟨m₂, rest₂, heq, hf⟩ := hs.finds hstarts
    obtain ⟨front, run, rfl, hl, hne, hrun⟩ := hm
    obtain ⟨front₂, run₂, rfl, hl₂, hne₂, hrun₂⟩ := hled.matches_iff.mp hf.matches
    obtain ⟨rfl, hback⟩ := hled.same_lead hl hl₂ hne hne₂ hrun hrun₂ heq
    have hsame : run = run₂ := by
      rw [← takeWhile_run hrun hrest, hback, takeWhile_run hrun₂ (hled.takes hf)]
    subst hsame
    rwa [List.append_cancel_left hback]

end Parts.LedBy

end AgenticDelivery.Data
