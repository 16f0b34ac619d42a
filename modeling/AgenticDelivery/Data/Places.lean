import AgenticDelivery.Data.Masking

/-! # Places of a text

The parts of a text by their positions, what stands before and behind them, and what
a view of the text, in which some characters are marked, has in common with it. -/
namespace AgenticDelivery.Data
open Regex (wordBefore wordAfter)

variable {α : Type} {word : α → Bool} {text : List α} {p p' : α → Prop} {i j q : Nat}

/-- The character at the position is of the class. -/
def IsAt (text : List α) (p : α → Prop) (q : Nat) : Prop := ∃ c, text[q]? = some c ∧ p c

theorem IsAt.lt (h : IsAt text p q) : q < text.length := by
  obtain ⟨c, hc, -⟩ := h
  exact (List.getElem?_eq_some_iff.mp hc).1

theorem isAt_of_lt (h : q < text.length) (hp : ∀ c, text[q]? = some c → p c) : IsAt text p q :=
  ⟨text[q], List.getElem?_eq_getElem h, hp _ (List.getElem?_eq_getElem h)⟩

theorem IsAt.mono (h : IsAt text p q) (hp : ∀ c, p c → p' c) : IsAt text p' q := by
  obtain ⟨c, hc, h⟩ := h
  exact ⟨c, hc, hp c h⟩

theorem IsAt.of_getElem? {c : α} (h : IsAt text p q) (hc : text[q]? = some c) : p c := by
  obtain ⟨d, hd, h⟩ := h
  rw [hc, Option.some.injEq] at hd
  rwa [hd]

/-- No character is of two classes that have none in common. -/
theorem IsAt.apart (h : IsAt text p q) (h' : IsAt text p' q) (hp : ∀ c, p c → ¬p' c) : False := by
  obtain ⟨c, hc, h⟩ := h
  exact hp c h (h'.of_getElem? hc)

/-! ## Parts -/

theorem getElem?_segment {n : Nat} (h : i + n < j) : (segment text i j)[n]? = text[i + n]? := by
  rw [segment, List.getElem?_drop, List.getElem?_take_of_lt h]

/-- A piece of a part, at its place. -/
theorem getElem?_of_segment {l₁ l₂ l₃ : List α} {n : Nat}
    (h : segment text i j = l₁ ++ (l₂ ++ l₃)) (hn : n < l₂.length) :
    text[i + l₁.length + n]? = l₂[n]? := by
  have hlen := congrArg List.length h
  simp only [segment, List.length_drop, List.length_take, List.length_append] at hlen
  rw [Nat.add_assoc, ← getElem?_segment (j := j) (by omega), h,
    List.getElem?_append_right (by omega), Nat.add_sub_cancel_left,
    List.getElem?_append_left hn]

theorem isAt_of_segment {l₁ l₂ l₃ : List α} (h : segment text i j = l₁ ++ (l₂ ++ l₃))
    (hp : ∀ c ∈ l₂, p c) (hq : i + l₁.length ≤ q) (hq' : q < i + l₁.length + l₂.length) :
    IsAt text p q := by
  have hn : q - (i + l₁.length) < l₂.length := by omega
  have hc := getElem?_of_segment h hn
  rw [Nat.add_sub_cancel' hq, List.getElem?_eq_getElem hn] at hc
  exact ⟨_, hc, hp _ (List.getElem_mem hn)⟩

theorem mem_segment {c : α} : c ∈ segment text i j ↔ ∃ q, i ≤ q ∧ q < j ∧ text[q]? = some c := by
  constructor
  · intro h
    obtain ⟨n, hn⟩ := List.mem_iff_getElem?.mp h
    have hlt := (List.getElem?_eq_some_iff.mp hn).1
    rw [segment, List.length_drop, List.length_take] at hlt
    rw [getElem?_segment (by omega)] at hn
    exact ⟨i + n, by omega, by omega, hn⟩
  · intro h
    obtain ⟨q, hi, hj, hc⟩ := h
    refine List.mem_iff_getElem?.mpr ⟨q - i, ?_⟩
    rw [getElem?_segment (by omega), Nat.add_sub_cancel' hi, hc]

theorem segment_cons {c : α} (hi : text[i]? = some c) (hj : i < j) :
    segment text i j = c :: segment text (i + 1) j := by
  obtain ⟨hlt, rfl⟩ := List.getElem?_eq_some_iff.mp hi
  have hlen : j - i = j - (i + 1) + 1 := by omega
  rw [segment, List.drop_take, List.drop_eq_getElem_cons hlt, hlen, List.take_succ_cons, segment,
    List.drop_take]

theorem segment_append {k : Nat} (hi : i ≤ k) (hk : k ≤ j) :
    segment text i j = segment text i k ++ segment text k j := by
  have hlen : j - i = (k - i) + (j - k) := by omega
  simp only [segment, List.drop_take]
  rw [hlen, List.take_add, List.drop_drop, Nat.add_sub_cancel' hi]

/-! ## What stands next to a part -/

theorem wordBefore_take {c : α} {b : Bool} (h : text[q]? = some c) :
    wordBefore word b (text.take (q + 1)) = word c := by
  rw [List.take_add_one, h, Option.toList_some, Regex.wordBefore_append]
  rfl

theorem wordAfter_drop {a : Bool} : wordAfter word a (text.drop q) =
    (text[q]?.map word).getD a := by
  by_cases h : q < text.length
  · rw [List.drop_eq_getElem_cons h, List.getElem?_eq_getElem h]
    rfl
  · rw [List.drop_eq_nil_of_le (by omega), List.getElem?_eq_none (by omega)]
    rfl

/-! ## Matches of a lead and a run -/

/-- A lead stands at `i`, and a character of the class behind it at `e`. -/
def LeadAt (word : α → Bool) (lead : Bool → List α → Prop) (p : α → Bool) (text : List α)
    (i e : Nat) : Prop :=
  i ≤ e ∧ lead (wordBefore word false (text.take i)) (segment text i e) ∧
    IsAt text (fun c => p c = true) e

theorem Parts.LedBy.matchesAt_iff {parts : Parts α} {lead : Bool → List α → Prop} {p : α → Bool}
    (hled : parts.LedBy word lead p) : MatchesAt word parts text i j ↔
      ∃ e, LeadAt word lead p text i e ∧ e < j ∧
        ∀ q, e ≤ q → q < j → IsAt text (fun c => p c = true) q := by
  constructor
  · intro ⟨_, hle, hm⟩
    obtain ⟨front, run, hseg, hl, hne, hrun⟩ := hled.matches_iff.mp hm
    have hlen := congrArg List.length hseg
    rw [length_segment hle, List.length_append] at hlen
    have hpos := List.length_pos_of_ne_nil hne
    have hrun' (q : Nat) (hq : i + front.length ≤ q) (hj : q < j) :
        IsAt text (fun c => p c = true) q := by
      have hcut : segment text i j = front ++ (run ++ []) := by simpa using hseg
      exact isAt_of_segment hcut hrun hq (by omega)
    have hfront : segment text i (i + front.length) = front := by
      have hcut := @segment_append _ text i j (i + front.length) (Nat.le_add_right _ _) (by omega)
      rw [hseg] at hcut
      exact (List.append_inj_left hcut (by rw [length_segment (by omega)]; omega)).symm
    refine ⟨i + front.length, ⟨Nat.le_add_right _ _, by rwa [hfront], ?_⟩, by omega, hrun'⟩
    exact hrun' _ (Nat.le_refl _) (by omega)
  · intro ⟨e, ⟨hi, hl, _⟩, hj, hrun⟩
    have hle : j ≤ text.length := by
      have := (hrun (j - 1) (by omega) (by omega)).lt
      omega
    refine ⟨by omega, hle, hled.matches_iff.mpr ⟨segment text i e, segment text e j,
      segment_append hi (Nat.le_of_lt hj), hl, ?_, ?_⟩⟩
    · rw [ne_eq, ← List.length_eq_zero_iff, length_segment hle]
      omega
    · intro c hc
      obtain ⟨q, hq, hqj, hat⟩ := mem_segment.mp hc
      exact (hrun q hq hqj).of_getElem? hat

/-- At a place stands one lead. -/
theorem Parts.LedBy.leadAt_unique {parts : Parts α} {lead : Bool → List α → Prop} {p : α → Bool}
    (hled : parts.LedBy word lead p) {e e' : Nat} (h : LeadAt word lead p text i e)
    (h' : LeadAt word lead p text i e') : e = e' := by
  have cut {e : Nat} (h : LeadAt word lead p text i e) : ∃ c rest,
      text.drop i = segment text i e ++ c :: rest ∧ p c = true := by
    obtain ⟨hi, -, c, hc, hp⟩ := h
    obtain ⟨hlt, rfl⟩ := List.getElem?_eq_some_iff.mp hc
    have hcut := @take_segment_drop _ text _ _ hi
    rw [List.append_assoc] at hcut
    refine ⟨text[e], text.drop (e + 1), ?_, hp⟩
    rw [← List.drop_eq_getElem_cons hlt]
    exact List.append_cancel_left ((List.take_append_drop i text).trans hcut)
  obtain ⟨c, rest, hcut, hc⟩ := cut h
  obtain ⟨c', rest', hcut', hc'⟩ := cut h'
  have hsame := congrArg List.length
    (hled.unique h.2.1 h'.2.1 hc hc' (hcut.symm.trans hcut'))
  rw [length_segment (Nat.le_of_lt h.2.2.lt), length_segment (Nat.le_of_lt h'.2.2.lt)] at hsame
  have hi := h.1
  have hi' := h'.1
  omega

/-- Behind a hit the run does not go on. -/
theorem Parts.LedBy.hit_takes {parts : Parts α} {lead : Bool → List α → Prop} {p : α → Bool}
    (hled : parts.LedBy word lead p) (hs : parts.Solid word) (h : Hit word parts text i j) {c : α}
    (hc : text[j]? = some c) : p c = false := by
  obtain ⟨pre, m, post, rfl, rfl, rfl, hf⟩ := hit_finds hs h
  refine hled.takes hf c ?_
  rw [← List.length_append, List.getElem?_append_right (Nat.le_refl _), Nat.sub_self] at hc
  rwa [List.head?_eq_getElem?]

/-! ## Views -/

/-- The view shows the text, but for a mark at each place that is gone. -/
structure Veils (gone : Nat → Prop) (mark : α) (text view : List α) : Prop where
  length_eq : view.length = text.length
  kept : ∀ {q}, ¬gone q → view[q]? = text[q]?
  marked : ∀ {q}, gone q → q < text.length → view[q]? = some mark

theorem veils_view {mark : α} {cells : List (α × Bool)} (h : cells.map Prod.fst = text) :
    Veils (Removed cells) mark text (view mark cells) where
  length_eq := by rw [length_view, ← h, List.length_map]
  kept {q} hq := by
    rw [← h, view, List.getElem?_map, List.getElem?_map]
    cases hc : cells[q]? with
    | none => rfl
    | some cell =>
      obtain ⟨c, gone⟩ := cell
      cases gone with
      | false => rfl
      | true => exact absurd ⟨c, hc⟩ hq
  marked {q} := by
    intro hq _
    obtain ⟨c, hc⟩ := hq
    rw [view, List.getElem?_map, hc]
    rfl

theorem Veils.congr {gone gone' : Nat → Prop} {mark : α} {seen : List α}
    (h : Veils gone mark text seen) (hg : ∀ q, gone q ↔ gone' q) : Veils gone' mark text seen where
  length_eq := h.length_eq
  kept hq := h.kept fun hgone => hq ((hg _).mp hgone)
  marked hq hlt := h.marked ((hg _).mpr hq) hlt

namespace Veils
variable {gone : Nat → Prop} {mark : α} {seen : List α} (h : Veils gone mark text seen)
include h

theorem isAt_iff (hq : ¬gone q) : IsAt seen p q ↔ IsAt text p q := by
  unfold IsAt
  rw [h.kept hq]

theorem isAt_mark (hq : gone q) (hlt : q < text.length) : IsAt seen p q ↔ p mark := by
  unfold IsAt
  rw [h.marked hq hlt]
  simp

theorem segment_eq (hpart : ∀ q, i ≤ q → q < j → ¬gone q) :
    segment seen i j = segment text i j := by
  refine List.ext_getElem? fun n => ?_
  by_cases hn : i + n < j
  · rw [getElem?_segment hn, getElem?_segment hn, h.kept (hpart _ (Nat.le_add_right _ _) hn)]
  · have hlen (l : List α) : (segment l i j).length ≤ n := by
      rw [segment, List.length_drop, List.length_take]
      omega
    rw [List.getElem?_eq_none (hlen seen), List.getElem?_eq_none (hlen text)]

theorem wordBefore_eq (hi : i ≤ text.length) (hq : ∀ q, q + 1 = i → ¬gone q) :
    wordBefore word false (seen.take i) = wordBefore word false (text.take i) := by
  cases i with
  | zero => rfl
  | succ q =>
    have hc := List.getElem?_eq_getElem (l := text) (show q < text.length by omega)
    rw [wordBefore_take hc, wordBefore_take ((h.kept (hq q rfl)).trans hc)]

theorem wordBefore_mark (hq : gone q) (hlt : q < text.length) :
    wordBefore word false (seen.take (q + 1)) = word mark :=
  wordBefore_take (h.marked hq hlt)

/-- A word character behind a part stands there in the text. -/
theorem wordAfter_of_seen (hmark : word mark = false)
    (ha : wordAfter word false (seen.drop j) = true) :
    ¬gone j ∧ wordAfter word false (text.drop j) = true := by
  have hlt : j < text.length := by
    by_contra hge
    rw [wordAfter_drop, List.getElem?_eq_none (by rw [h.length_eq]; omega)] at ha
    cases ha
  have hj : ¬gone j := by
    intro hj
    rw [wordAfter_drop, h.marked hj hlt] at ha
    simp [hmark] at ha
  refine ⟨hj, ?_⟩
  rwa [wordAfter_drop, h.kept hj, ← wordAfter_drop] at ha

end Veils

end AgenticDelivery.Data
