import Mathlib.Data.Nat.Find
import AgenticDelivery.Api.SecretPlaces

/-! # What redaction removes

The patterns are replaced one after the other, so a later one sees the text without
what the earlier ones hit. A bearer credential can take the key of an assignment, and
an assigned value the front of an address: what is left of these is no match any more,
and stays. This says exactly when nothing is left. -/
namespace AgenticDelivery.Api
open AgenticDelivery.Data
open Regex (wordBefore wordAfter)

variable (u : Unicode)

/-- The characters of a text, and which of them the loop over `SENSITIVE_VALUES` removes. -/
def redactMask (text : List Char) : List (Char × Bool) :=
  sensitiveValues.foldl (fun cells pattern => removeHits u.isWord '[' pattern cells)
    (text.map fun c => (c, false))

/-- The redacted text is the text with parts replaced, and these cover all that a pattern
matches. -/
structure NothingLost (text : String) : Prop where
  source : (redactMask u text.toList).map Prod.fst = text.toList
  rendered : Rendered redacted.toList (redactMask u text.toList) (redactText u text).toList
  covered : ∀ pattern ∈ sensitiveValues, ∀ q, Covered u.isWord pattern text.toList q →
    Removed (redactMask u text.toList) q

/-! ## The condition -/

section Condition
variable (text : List Char)

/-- A bearer credential takes the position. -/
def InBearer (q : Nat) : Prop := Covered u.isWord bearerPattern text q

/-- An assigned value goes no further than `j`: the text ends there, or white space
outside the bearer credentials stands there. -/
def ValueEnd (j : Nat) : Prop :=
  j = text.length ∨ IsAt text (fun c => isSpace c = true) j ∧ ¬InBearer u text j

/-- An assignment at `i` that no bearer credential takes, with a value to `j`. -/
def AssignedValue (i j : Nat) : Prop :=
  ∃ e, Hit u.isWord assignmentPattern text i e ∧ ¬InBearer u text i ∧ e ≤ j ∧
    ValueEnd u text j ∧ ∀ q, e ≤ q → q < j → ¬ValueEnd u text q

/-- No match is cut by a match of an earlier pattern. -/
structure Untangled : Prop where
  /-- An assignment that a bearer credential takes is in a value. -/
  taken : ∀ {i e}, Hit u.isWord assignmentPattern text i e → InBearer u text i →
    ∃ i' j', AssignedValue u text i' j' ∧ i' < i ∧ e ≤ j'
  /-- A value that reaches an assignment takes all of it. -/
  whole : ∀ {i e i' j'}, Hit u.isWord assignmentPattern text i e → AssignedValue u text i' j' →
    i' < i → i < j' → e ≤ j'
  /-- An address is in a value, or has nothing to do with the other patterns. -/
  address : ∀ {i j}, Hit u.isWord emailPattern text i j →
    (∃ i' j', AssignedValue u text i' j' ∧ i' ≤ i ∧ j ≤ j') ∨
      (∀ q, i ≤ q → q < j → ¬InBearer u text q) ∧ (∀ a, ¬Hit u.isWord bearerPattern text a i) ∧
        ∀ i' j', AssignedValue u text i' j' → ¬(i ≤ i' ∧ i' < j)

end Condition

/-! ## The stages -/

theorem map_fst_redactMask (text : List Char) : (redactMask u text).map Prod.fst = text := by
  unfold redactMask sensitiveValues
  simp only [List.foldl_cons, List.foldl_nil, map_fst_removeHits solid_bearerPattern,
    map_fst_removeHits solid_assignmentPattern, map_fst_removeHits solid_emailPattern]
  simp [Function.comp_def]

/-- **The redacted text is the text with what is removed replaced.** -/
theorem rendered_redactMask (text : String) :
    Rendered redacted.toList (redactMask u text.toList) (redactText u text).toList := by
  have hend (b : Bool) : wordBefore u.isWord b redacted.toList = u.isWord '[' := by
    rw [wordBefore_redacted, isWord_bracket]
  unfold redactText redactMask sensitiveValues
  simp only [List.foldl_cons, List.foldl_nil, String.toList_ofList]
  refine Rendered.substitute (blind_emailPattern u) solid_emailPattern hend ?_ false
  refine Rendered.substitute (blind_assignmentPattern u) solid_assignmentPattern hend ?_ false
  exact rendered_kept.substitute (blind_bearerPattern u) solid_bearerPattern hend false

section Hits
variable (text : List Char)

theorem hits_bearerPattern : LeftmostLongest (MatchesAt u.isWord bearerPattern text)
    (Hit u.isWord bearerPattern text) :=
  leftmostLongest solid_bearerPattern ledBy_bearerPattern.longest text

theorem hits_assignmentPattern : LeftmostLongest (MatchesAt u.isWord assignmentPattern text)
    (Hit u.isWord assignmentPattern text) :=
  leftmostLongest solid_assignmentPattern ledBy_assignmentPattern.longest text

theorem hits_emailPattern : LeftmostLongest (MatchesAt u.isWord emailPattern text)
    (Hit u.isWord emailPattern text) :=
  leftmostLongest solid_emailPattern longest_emailPattern text

end Hits

/-! ## Assignments behind bearer credentials -/

/-- A lead of an assignment, with the first character of its value at `e`. -/
abbrev AssignedAt (word : Char → Bool) (text : List Char) (i e : Nat) : Prop :=
  LeadAt word (AssignmentLead word) (fun c => !isSpace c) text i e

variable {text seen : List Char} {i j k x e q : Nat}

theorem InBearer.places (h : InBearer u text q) : ∃ a g b, Hit u.isWord bearerPattern text a b ∧
    BearerPlaces u.isWord text a g b ∧ a ≤ q ∧ q < b := by
  obtain ⟨a, b, hhit, haq, hqb⟩ := h
  obtain ⟨g, hp⟩ := bearerPlaces ((hits_bearerPattern u text).fits_of_hit hhit)
  exact ⟨a, g, b, hhit, hp, haq, hqb⟩

/-- A lead whose first character is not taken is not taken at all. -/
theorem AssignmentPlaces.not_inBearer (ha : AssignmentPlaces u.isWord text i k x e)
    (hi : ¬InBearer u text i) (hq : i ≤ q) (he : q < e) : ¬InBearer u text q := by
  intro hb
  obtain ⟨a, g, b, hhit, hp, haq, hqb⟩ := hb.places
  exact hp.misses ha (fun h => hi ⟨a, b, hhit, h⟩) haq hqb hq he

/-- A bearer credential does not end where it can go on. -/
theorem not_hit_of_bearerChar (h : IsAt text (fun c => bearerChar c = true) i) (a : Nat) :
    ¬Hit u.isWord bearerPattern text a i := by
  intro hhit
  obtain ⟨c, hc, hbear⟩ := h
  rw [ledBy_bearerPattern.hit_takes solid_bearerPattern hhit hc] at hbear
  cases hbear

/-- What a bearer credential takes before a position it does not take, it takes up to there. -/
theorem InBearer.hit (h : InBearer u text q) (hnext : ¬InBearer u text (q + 1)) :
    ∃ a, Hit u.isWord bearerPattern text a (q + 1) := by
  obtain ⟨a, b, hhit, haq, hqb⟩ := h
  have hb : b = q + 1 := by
    by_contra hne
    exact hnext ⟨a, b, hhit, by omega, by omega⟩
  exact ⟨a, hb ▸ hhit⟩

theorem hit_assigned (h : Hit u.isWord assignmentPattern text i j) :
    ∃ e, AssignedAt u.isWord text i e ∧ e < j ∧
      ∀ q, e ≤ q → q < j → IsAt text (fun c => (!isSpace c) = true) q :=
  ledBy_assignmentPattern.matchesAt_iff.mp ((hits_assignmentPattern u text).fits_of_hit h)

/-- Every lead is in an assignment. -/
theorem AssignedAt.hit (h : AssignedAt u.isWord text i e) :
    ∃ a b, Hit u.isWord assignmentPattern text a b ∧ a ≤ i ∧ i < b := by
  refine (hits_assignmentPattern u text).complete (j := e + 1)
    (ledBy_assignmentPattern.matchesAt_iff.mpr ⟨e, h, Nat.lt_succ_self e, ?_⟩)
  intro q hq hq'
  obtain rfl : e = q := by omega
  exact h.2.2

theorem ValueEnd.isAt (h : ValueEnd u text j) (hj : j < text.length) :
    IsAt text (fun c => isSpace c = true) j := by
  rcases h with h | h
  · omega
  · exact h.1

theorem not_valueEnd (h : IsAt text (fun c => (!isSpace c) = true) q) : ¬ValueEnd u text q := by
  intro hends
  exact h.apart (hends.isAt u h.lt) fun c hc hc' => by simp [hc'] at hc

/-- A lead that no bearer credential takes, with a value to `j`. -/
def Span (u : Unicode) (text : List Char) (i j : Nat) : Prop :=
  ∃ e, AssignedAt u.isWord text i e ∧ ¬InBearer u text i ∧ e < j ∧ ValueEnd u text j ∧
    ∀ q, e ≤ q → q < j → ¬ValueEnd u text q

theorem Span.unique {j' : Nat} (h : Span u text i j) (h' : Span u text i j') : j = j' := by
  obtain ⟨e, hl, -, hj, hends, hrun⟩ := h
  obtain ⟨e', hl', -, hj', hends', hrun'⟩ := h'
  obtain rfl := ledBy_assignmentPattern.leadAt_unique hl hl'
  by_contra hne
  rcases Nat.lt_or_gt_of_ne hne with hlt | hlt
  · exact hrun' j (Nat.le_of_lt hj) hlt hends
  · exact hrun j' (Nat.le_of_lt hj') hlt hends'

theorem AssignedValue.span (h : AssignedValue u text i j) : Span u text i j := by
  obtain ⟨b, hhit, hfree, hb, hends, hrun⟩ := h
  obtain ⟨e, hl, he, hvalue⟩ := hit_assigned u hhit
  refine ⟨e, hl, hfree, by omega, hends, ?_⟩
  intro q hq hq'
  by_cases hqb : q < b
  · exact not_valueEnd u (hvalue q hq hqb)
  · exact hrun q (by omega) hq'

/-- The lead of an assignment reaches as far as the assignment, at least. -/
theorem Span.value {b : Nat} (h : Span u text i j)
    (hhit : Hit u.isWord assignmentPattern text i b) : AssignedValue u text i j ∧ b ≤ j := by
  obtain ⟨e, hl, hfree, he, hends, hrun⟩ := h
  obtain ⟨e', hl', heb, hvalue⟩ := hit_assigned u hhit
  obtain rfl := ledBy_assignmentPattern.leadAt_unique hl hl'
  have hb : b ≤ j := by
    by_contra hlt
    exact not_valueEnd u (hvalue j (Nat.le_of_lt he) (by omega)) hends
  exact ⟨⟨b, hhit, hfree, hb, hends, fun q hq => hrun q (by omega)⟩, hb⟩

theorem exists_span (h : AssignedAt u.isWord text i e) (hfree : ¬InBearer u text i) :
    ∃ j, Span u text i j := by
  classical
  have hlt := h.2.2.lt
  have hex : ∃ j, e < j ∧ ValueEnd u text j := ⟨text.length, hlt, .inl rfl⟩
  obtain ⟨hj, hends⟩ := Nat.find_spec hex
  refine ⟨Nat.find hex, e, h, hfree, hj, hends, ?_⟩
  intro q hq hqj hq'
  by_cases hqe : q = e
  · exact not_valueEnd u (hqe ▸ h.2.2) hq'
  · exact Nat.find_min hex hqj ⟨by omega, hq'⟩

section Assignments
variable (hv : Veils (InBearer u text) '[' text seen)
include hv

/-- **Behind the bearer credentials stand the leads that they do not take.** -/
theorem assignedAt_seen : AssignedAt u.isWord seen i e ↔
    AssignedAt u.isWord text i e ∧ ¬InBearer u text i := by
  have context (hi : i ≤ text.length) (ha : ∀ a, ¬Hit u.isWord bearerPattern text a i)
      (hfree : ¬InBearer u text i) : wordBefore u.isWord false (seen.take i) =
        wordBefore u.isWord false (text.take i) := by
    refine hv.wordBefore_eq hi ?_
    rintro q rfl hq
    obtain ⟨a, hhit⟩ := hq.hit u hfree
    exact ha a hhit
  constructor
  · intro h
    obtain ⟨k, x, hp⟩ := assignmentPlaces h
    obtain ⟨hi, hl, hvalue⟩ := h
    have hlt := hvalue.lt
    rw [hv.length_eq] at hlt
    have hie := hp.lt
    have hii := Nat.le_refl i
    -- no mark stands in the lead
    have hfree (q : Nat) (hq : i ≤ q) (he : q < e) : ¬InBearer u text q := by
      intro hgone
      by_cases hkey : q < k
      · have := (hv.isAt_mark hgone (by omega)).mp (hp.key q hq hkey)
        revert this
        decide
      · by_cases hx : q = x
        · subst hx
          have := (hv.isAt_mark hgone (by omega)).mp hp.sign
          revert this
          decide
        · have := (hv.isAt_mark hgone (by omega)).mp (hp.gap q (by omega) he hx)
          revert this
          decide
    have hbear := (hv.isAt_iff (hfree i hii hie)).mp hp.first_bearer
    refine ⟨⟨hi, ?_, ?_⟩, hfree i hii hie⟩
    · rwa [← context (by omega) (not_hit_of_bearerChar u hbear) (hfree i hii hie),
        ← hv.segment_eq hfree]
    · by_cases he : InBearer u text e
      · -- a bearer credential begins with the value
        obtain ⟨a, g, b, hhit, hb, hae, heb⟩ := he.places
        have hsame : a = e := by
          by_contra hne
          exact hfree (e - 1) (by omega) (by omega) ⟨a, b, hhit, by omega, by omega⟩
        subst hsame
        exact (hb.first.not_space (by decide)).mono fun c hc => by simp [hc]
      · exact (hv.isAt_iff he).mp hvalue
  · intro ⟨h, hfree⟩
    obtain ⟨k, x, hp⟩ := assignmentPlaces h
    obtain ⟨hi, hl, hvalue⟩ := h
    have hlt := hvalue.lt
    refine ⟨hi, ?_, ?_⟩
    · rwa [context (by omega) (not_hit_of_bearerChar u hp.first_bearer) hfree,
        hv.segment_eq fun q hq he => hp.not_inBearer u hfree hq he]
    · by_cases he : InBearer u text e
      · exact (hv.isAt_mark he hlt).mpr (by decide)
      · exact (hv.isAt_iff he).mpr hvalue

/-- A value goes on where it does not end. -/
theorem isAt_seen (hq : q ≤ text.length) :
    IsAt seen (fun c => (!isSpace c) = true) q ↔ ¬ValueEnd u text q := by
  unfold ValueEnd
  by_cases hlt : q = text.length
  · subst hlt
    simp only [true_or, not_true_eq_false, iff_false]
    intro h
    have := h.lt
    rw [hv.length_eq] at this
    omega
  · by_cases hb : InBearer u text q
    · rw [hv.isAt_mark hb (by omega)]
      simp [hlt, hb]
      decide
    · rw [hv.isAt_iff hb]
      simp only [hlt, hb, false_or, not_false_eq_true, and_true]
      constructor
      · intro h h'
        exact h.apart h' fun c hc hc' => by simp [hc'] at hc
      · intro h
        refine isAt_of_lt (by omega) fun c hc => ?_
        by_contra hspace
        exact h ⟨c, hc, by simpa using hspace⟩

theorem Span.matchesAt (h : Span u text i j) : MatchesAt u.isWord assignmentPattern seen i j := by
  obtain ⟨e, hl, hfree, hj, hends, hrun⟩ := h
  have hle : j ≤ text.length := by
    by_contra hlt
    exact hrun text.length (Nat.le_of_lt hl.2.2.lt) (by omega) (.inl rfl)
  refine ledBy_assignmentPattern.matchesAt_iff.mpr
    ⟨e, (assignedAt_seen u hv).mpr ⟨hl, hfree⟩, hj, ?_⟩
  intro q hq hq'
  exact (isAt_seen u hv (by omega)).mpr (hrun q hq hq')

/-- **What is hit behind the bearer credentials.** -/
theorem hit_span (h : Hit u.isWord assignmentPattern seen i j) : Span u text i j := by
  have hm := (hits_assignmentPattern u seen).fits_of_hit h
  obtain ⟨e, hl, hj, hrun⟩ := ledBy_assignmentPattern.matchesAt_iff.mp hm
  obtain ⟨hl', hfree⟩ := (assignedAt_seen u hv).mp hl
  have hle := hm.2.1
  rw [hv.length_eq] at hle
  refine ⟨e, hl', hfree, hj, ?_, ?_⟩
  · by_contra hends
    obtain ⟨c, hc, hspace⟩ := (isAt_seen u hv hle).mpr hends
    rw [ledBy_assignmentPattern.hit_takes solid_assignmentPattern h hc] at hspace
    cases hspace
  · intro q hq hq'
    exact (isAt_seen u hv (by omega)).mp (hrun q hq hq')

/-- A span is hit, or something that begins before it. -/
theorem Span.hit (h : Span u text i j) :
    ∃ x y, Hit u.isWord assignmentPattern seen x y ∧ x ≤ i ∧ i < y :=
  (hits_assignmentPattern u seen).complete (h.matchesAt u hv)

/-- Each assignment lies in a part that is hit behind the bearer credentials. -/
def Cover (u : Unicode) (text seen : List Char) : Prop :=
  ∀ {i b}, Hit u.isWord assignmentPattern text i b →
    ∃ x y, Hit u.isWord assignmentPattern seen x y ∧ x ≤ i ∧ b ≤ y

omit hv in
/-- Each assignment lies in a value. -/
theorem Untangled.exists_value (hu : Untangled u text) {b : Nat}
    (h : Hit u.isWord assignmentPattern text i b) :
    ∃ i' j', AssignedValue u text i' j' ∧ i' ≤ i ∧ b ≤ j' := by
  by_cases hfree : InBearer u text i
  · obtain ⟨i', j', hvalue, hlt, hle⟩ := hu.taken h hfree
    exact ⟨i', j', hvalue, Nat.le_of_lt hlt, hle⟩
  · obtain ⟨e, hl, -⟩ := hit_assigned u h
    obtain ⟨j', hspan⟩ := exists_span u hl hfree
    obtain ⟨hvalue, hle⟩ := hspan.value u h
    exact ⟨i, j', hvalue, Nat.le_refl i, hle⟩

/-- A value lies in a part that is hit, if what is hit up to there are values. -/
theorem Untangled.value_within (hu : Untangled u text) (h : AssignedValue u text i j)
    (hvalues : ∀ {x y}, x ≤ i → Hit u.isWord assignmentPattern seen x y →
      AssignedValue u text x y) :
    ∃ x y, Hit u.isWord assignmentPattern seen x y ∧ x ≤ i ∧ j ≤ y := by
  obtain ⟨x, y, hhit, hx, hy⟩ := h.span u |>.hit u hv
  refine ⟨x, y, hhit, hx, ?_⟩
  have hvalue := hvalues hx hhit
  by_cases hsame : x = i
  · subst hsame
    exact Nat.le_of_eq ((h.span u).unique u (hvalue.span u))
  · obtain ⟨b, hb, -, -, -, hrun⟩ := h
    have hle := hu.whole hb hvalue (by omega) hy
    obtain ⟨-, -, -, -, hends, -⟩ := hvalue
    by_contra hlt
    exact hrun y hle (by omega) hends

/-- What is hit behind the bearer credentials are values. -/
theorem Untangled.value_of_hit (hu : Untangled u text) :
    ∀ {i j}, Hit u.isWord assignmentPattern seen i j → AssignedValue u text i j := by
  intro i
  induction i using Nat.strong_induction_on with
  | _ i ih =>
    intro j h
    have hspan := hit_span u hv h
    obtain ⟨e, hl, -⟩ := hspan
    obtain ⟨a, b, hhit, hle, hlt⟩ := hl.hit u
    by_cases hsame : a = i
    · exact ((hit_span u hv h).value u (hsame ▸ hhit)).1
    · -- an earlier part would be hit that reaches beyond `i`
      obtain ⟨i', j', hvalue, hi', hj'⟩ := hu.exists_value u hhit
      obtain ⟨x, y, hhit', hx, hy⟩ := hu.value_within u hv hvalue fun hxi hh =>
        ih _ (by omega) hh
      obtain ⟨rfl, -⟩ := (hits_assignmentPattern u seen).apart hhit' h (by omega) (by omega)
      omega

theorem Untangled.cover (hu : Untangled u text) : Cover u text seen := by
  intro i b h
  obtain ⟨i', j', hvalue, hi', hj'⟩ := hu.exists_value u h
  obtain ⟨x, y, hhit, hx, hy⟩ := hu.value_within u hv hvalue fun _ hh => hu.value_of_hit u hv hh
  exact ⟨x, y, hhit, by omega, by omega⟩

section Cover
variable (hc : Cover u text seen)
include hc

theorem Cover.value_of_hit (h : Hit u.isWord assignmentPattern seen i j) :
    AssignedValue u text i j := by
  have hspan := hit_span u hv h
  obtain ⟨e, hl, -⟩ := hspan
  obtain ⟨a, b, hhit, hle, hlt⟩ := hl.hit u
  obtain ⟨x, y, hhit', hx, hy⟩ := hc hhit
  obtain ⟨rfl, -⟩ := (hits_assignmentPattern u seen).apart hhit' h (by omega) (by omega)
  obtain rfl : a = x := by omega
  exact ((hit_span u hv h).value u hhit).1

/-- A value ends where the part ends that is hit there. -/
theorem Cover.value_within (h : AssignedValue u text i j) :
    ∃ x, Hit u.isWord assignmentPattern seen x j ∧ x ≤ i := by
  obtain ⟨b, hhit, hfree, hb, hends, hrun⟩ := h
  obtain ⟨x, y, hhit', hx, hy⟩ := hc hhit
  suffices hsame : y = j from ⟨x, hsame ▸ hhit', hx⟩
  have hvalue := hc.value_of_hit u hv hhit'
  have hge : j ≤ y := by
    obtain ⟨-, -, -, -, hends', -⟩ := hvalue
    by_contra hlt
    exact hrun y hy (by omega) hends'
  by_cases hxi : x = i
  · subst hxi
    exact hvalue.span u |>.unique u (AssignedValue.span u ⟨b, hhit, hfree, hb, hends, hrun⟩)
  · -- the value goes on behind its own assignment
    obtain ⟨bx, hhitx, -, -, -, hrunx⟩ := hvalue
    have hib := ((hits_assignmentPattern u text).fits_of_hit hhit).1
    have hbx : bx ≤ i := by
      by_contra hlt
      exact hxi ((hits_assignmentPattern u text).apart hhitx hhit hx (by omega)).1
    by_contra hne
    exact hrunx j (by omega) (by omega) hends

theorem Cover.taken {b : Nat} (h : Hit u.isWord assignmentPattern text i b)
    (hi : InBearer u text i) : ∃ i' j', AssignedValue u text i' j' ∧ i' < i ∧ b ≤ j' := by
  obtain ⟨x, y, hhit, hx, hy⟩ := hc h
  have hvalue := hc.value_of_hit u hv hhit
  refine ⟨x, y, hvalue, Nat.lt_of_le_of_ne hx ?_, hy⟩
  rintro rfl
  obtain ⟨-, -, hfree, -⟩ := hvalue
  exact hfree hi

theorem Cover.whole {b i' j' : Nat} (h : Hit u.isWord assignmentPattern text i b)
    (hvalue : AssignedValue u text i' j') (hlt : i' < i) (hij : i < j') : b ≤ j' := by
  obtain ⟨x, hhit, hx⟩ := hc.value_within u hv hvalue
  obtain ⟨x', y', hhit', hx', hy'⟩ := hc h
  have hib := ((hits_assignmentPattern u text).fits_of_hit h).1
  obtain ⟨-, rfl⟩ := (hits_assignmentPattern u seen).same (q := i) hhit hhit' (by omega) hij hx'
    (by omega)
  exact hy'

end Cover

end Assignments

end AgenticDelivery.Api
