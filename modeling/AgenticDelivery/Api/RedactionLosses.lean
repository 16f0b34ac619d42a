import AgenticDelivery.Api.RedactedPlaces
import AgenticDelivery.Governance.Protection

/-! # What redaction loses

An address is found at the end if nothing of it is gone by then and nothing right
before it. With what is found of the assignments this says when every match of every
pattern is removed. -/
namespace AgenticDelivery.Api
open AgenticDelivery.Data
open Governance.DeterministicDataClassifier (plainUnicode)
open Regex (wordBefore wordAfter)

variable (u : Unicode) {text seen : List Char} {i j x q : Nat}

/-! ## Addresses behind the other two -/

/-- What the first two patterns remove. -/
def Gone (u : Unicode) (text seen : List Char) (q : Nat) : Prop :=
  InBearer u text q ∨ Covered u.isWord assignmentPattern seen q

section Addresses
variable {late : List Char} (hv : Veils (InBearer u text) '[' text seen)

section
include hv

/-- What is gone ends where a bearer credential or a value does. -/
theorem Gone.ends (h : Gone u text seen q) (hnext : ¬Gone u text seen (q + 1)) :
    (∃ a, Hit u.isWord bearerPattern text a (q + 1)) ∨ ValueEnd u text (q + 1) := by
  obtain ⟨hb, hs⟩ := not_or.mp hnext
  rcases h with h | ⟨x, y, hhit, hx, hy⟩
  · exact .inl (h.hit u hb)
  · have hsame : y = q + 1 := by
      by_contra hne
      exact hs ⟨x, y, hhit, by omega, by omega⟩
    obtain ⟨-, -, -, -, hends, -⟩ := hit_span u hv hhit
    exact .inr (hsame ▸ hends)

/-- What is gone begins where no word goes on. -/
theorem Gone.begins (h : Gone u text seen (q + 1)) (hbefore : ¬Gone u text seen q)
    (hword : IsAt text (fun c => u.isWord c = true) q) :
    IsAt text (fun c => anyCase "apst" c = true ∧ u.isWord c = false) (q + 1) := by
  obtain ⟨c, hc, hword⟩ := hword
  have htake := @wordBefore_take _ u.isWord text q c false hc
  obtain ⟨hb, hs⟩ := not_or.mp hbefore
  rcases h with h | ⟨x, y, hhit, hx, hy⟩
  · -- a bearer credential begins a word
    obtain ⟨a, g, b, hhit, hp, ha, hqb⟩ := h.places
    have hsame : a = q + 1 := by
      by_contra hne
      exact hb ⟨a, b, hhit, by omega, by omega⟩
    subst hsame
    have hfalse := hp.wordBefore_eq u
    rw [htake, hword] at hfalse
    cases hfalse
  · have hsame : x = q + 1 := by
      by_contra hne
      exact hs ⟨x, y, hhit, by omega, by omega⟩
    subst hsame
    obtain ⟨e, hl, -⟩ := hit_span u hv hhit
    obtain ⟨k, s, hp⟩ := assignmentPlaces hl
    obtain ⟨d, hd, hread⟩ := hp.first
    have hne := hp.boundary.of_getElem? hd
    rw [htake, hword] at hne
    exact ⟨d, hd, hread, by simpa using hne⟩

end

variable (hv₂ : Veils (Gone u text seen) '[' text late)

section
include hv hv₂

/-- **The addresses that are found at the end stand in the text, and nothing is gone there.** -/
theorem address_late (h : MatchesAt u.isWord emailPattern late i j) :
    (∀ q, i ≤ q → q < j → ¬Gone u text seen q) ∧ (∀ q, q + 1 = i → ¬Gone u text seen q) ∧
      MatchesAt u.isWord emailPattern text i j := by
  obtain ⟨hj, haddr, hbound, hafter⟩ := (matchesAt_emailPattern u).mp h
  obtain ⟨t, hp⟩ := addressPlaces hj haddr
  have hit := hp.lt_sign
  have htj := hp.lt_end
  have hfree (q : Nat) (hi : i ≤ q) (hq : q < j) : ¬Gone u text seen q := by
    intro hgone
    rw [hv₂.length_eq] at hj
    exact haddr.not_mem (mem_segment.mpr ⟨q, hi, hq, hv₂.marked hgone (by omega)⟩)
  have hseg := hv₂.segment_eq hfree
  rw [hseg] at haddr
  rw [hv₂.length_eq] at hj
  have hfirst := (hv₂.isAt_iff (hfree i (Nat.le_refl i) (by omega))).mp
    (hp.user i (Nat.le_refl i) hit)
  have hcontext : ∀ q, q + 1 = i → ¬Gone u text seen q := by
    rintro q rfl hq
    obtain ⟨c, hc, hlocal⟩ := hfirst
    rcases hq.ends u hv (hfree (q + 1) (Nat.le_refl _) (by omega)) with ⟨a, hhit⟩ | hends
    · -- a credential would take a word character that stands behind it
      have hbear := ledBy_bearerPattern.hit_takes solid_bearerPattern hhit hc
      have hne := hbound.of_getElem?
        ((hv₂.kept (hfree (q + 1) (Nat.le_refl _) (by omega))).trans hc)
      rw [hv₂.wordBefore_mark hq (by omega), isWord_bracket,
        isWord_of_not_bearerChar u hbear hlocal] at hne
      exact hne rfl
    · exact ink_apart ⟨c, hc, isSpace_of_localChar hlocal⟩ (hends.isAt u (by omega))
  refine ⟨hfree, hcontext, (matchesAt_emailPattern u).mpr ⟨hj, haddr, ?_, ?_⟩⟩
  · have hsame : wordBefore u.isWord false (late.take i) =
        wordBefore u.isWord false (text.take i) := hv₂.wordBefore_eq (by omega) hcontext
    rw [← hsame]
    exact (hv₂.isAt_iff (hfree i (Nat.le_refl i) (by omega))).mp hbound
  · -- what is gone behind an address is no word either
    by_contra hword
    rw [Bool.not_eq_false] at hword
    have hlast := (hv₂.isAt_iff (hfree (j - 1) (by omega) (by omega))).mp hp.last
    have hcut : j - 1 + 1 = j := by omega
    by_cases hgone : Gone u text seen j
    · have hbegin := Gone.begins u hv (hcut.symm ▸ hgone) (hfree (j - 1) (by omega) (by omega))
        (hlast.mono fun c hc => isWord_of_isAlpha u hc)
      rw [hcut] at hbegin
      obtain ⟨c, hc, -, hc'⟩ := hbegin
      rw [wordAfter_drop, hc] at hword
      simp [hc'] at hword
    · rw [wordAfter_drop, ← hv₂.kept hgone, ← wordAfter_drop, hafter] at hword
      cases hword

omit hv in
/-- An address of the text is found at the end, if nothing of it is gone and nothing
right before it. -/
theorem address_kept (h : MatchesAt u.isWord emailPattern text i j)
    (hfree : ∀ q, i ≤ q → q < j → ¬Gone u text seen q)
    (hcontext : ∀ q, q + 1 = i → ¬Gone u text seen q) :
    MatchesAt u.isWord emailPattern late i j := by
  obtain ⟨hj, haddr, hbound, hafter⟩ := (matchesAt_emailPattern u).mp h
  have hlt := h.1
  refine (matchesAt_emailPattern u).mpr ⟨by rwa [hv₂.length_eq], ?_, ?_, ?_⟩
  · rwa [hv₂.segment_eq hfree]
  · rw [hv₂.wordBefore_eq (by omega) hcontext]
    exact (hv₂.isAt_iff (hfree i (Nat.le_refl i) hlt)).mpr hbound
  · by_contra hword
    rw [Bool.not_eq_false] at hword
    have := (hv₂.wordAfter_of_seen (isWord_bracket u) hword).2
    rw [hafter] at this
    cases this

end

theorem places_of_address (h : MatchesAt u.isWord emailPattern text i j) :
    ∃ t, AddressPlaces text i t j := by
  obtain ⟨hj, haddr, -⟩ := (matchesAt_emailPattern u).mp h
  exact addressPlaces hj haddr

/-- A value that reaches an address takes it to its end. -/
theorem ValueEnd.past_address {y : Nat} (hends : ValueEnd u text y)
    (h : MatchesAt u.isWord emailPattern text i j) (hi : i ≤ q) (hq : q < y) : j ≤ y := by
  obtain ⟨t, hp⟩ := places_of_address u h
  by_contra hlt
  have hj := h.2.1
  exact ink_apart ((hp.ink (q := y) (by omega) (by omega)).mono fun c hc => hc.1)
    (hends.isAt u (by omega))

/-- Nothing of the address is gone and nothing right before it. -/
def Lone (u : Unicode) (text seen : List Char) (i j : Nat) : Prop :=
  (∀ q, i ≤ q → q < j → ¬Gone u text seen q) ∧ ∀ q, q + 1 = i → ¬Gone u text seen q

/-- An address lies in a value. -/
def InValue (u : Unicode) (text : List Char) (i j : Nat) : Prop :=
  ∃ i' j', AssignedValue u text i' j' ∧ i' ≤ i ∧ j ≤ j'

section
variable (hc : Cover u text seen)
include hv hc

theorem AssignedValue.gone {i' j' : Nat} (h : AssignedValue u text i' j') (hi : i' ≤ q)
    (hq : q < j') :
    Gone u text seen q := by
  obtain ⟨x, hhit, hx⟩ := hc.value_within u hv h
  exact .inr ⟨x, j', hhit, by omega, hq⟩

theorem lone_iff (h : Hit u.isWord emailPattern text i j) :
    InValue u text i j ∨ Lone u text seen i j ↔ InValue u text i j ∨
      (∀ q, i ≤ q → q < j → ¬InBearer u text q) ∧ (∀ a, ¬Hit u.isWord bearerPattern text a i) ∧
        ∀ i' j', AssignedValue u text i' j' → ¬(i ≤ i' ∧ i' < j) := by
  have hm := (hits_emailPattern u text).fits_of_hit h
  have hij := hm.1
  by_cases hin : InValue u text i j
  · simp only [hin, true_or]
  · simp only [hin, false_or]
    constructor
    · intro ⟨hfree, hcontext⟩
      refine ⟨fun q hi hq hb => hfree q hi hq (.inl hb), ?_, ?_⟩
      · intro a hhit
        have hai := ((hits_bearerPattern u text).fits_of_hit hhit).1
        exact hcontext (i - 1) (by omega) (.inl ⟨a, i, hhit, by omega, by omega⟩)
      · intro i' j' hvalue ⟨hi, hj⟩
        obtain ⟨x, hhit, hx⟩ := hc.value_within u hv hvalue
        refine hfree i' hi hj (hvalue.gone u hv hc (Nat.le_refl i') ?_)
        obtain ⟨b, hb, -, hle, -⟩ := hvalue
        have := ((hits_assignmentPattern u text).fits_of_hit hb).1
        omega
    · intro ⟨hbearer, hbefore, hvalues⟩
      have hfree (q : Nat) (hi : i ≤ q) (hq : q < j) : ¬Gone u text seen q := by
        intro hgone
        rcases hgone with hb | ⟨x, y, hhit, hx, hy⟩
        · exact hbearer q hi hq hb
        · have hvalue := hc.value_of_hit u hv hhit
          have hend : j ≤ y := by
            obtain ⟨-, -, -, -, hends, -⟩ := hit_span u hv hhit
            exact hends.past_address u hm hi hy
          by_cases hxi : x ≤ i
          · exact hin ⟨x, y, hvalue, hxi, hend⟩
          · exact hvalues x y hvalue ⟨by omega, by omega⟩
      refine ⟨hfree, ?_⟩
      rintro q rfl hq
      rcases hq.ends u hv (hfree (q + 1) (Nat.le_refl _) hij) with ⟨a, hhit⟩ | hends
      · exact hbefore a hhit
      · obtain ⟨t, hp⟩ := places_of_address u hm
        have hlen := hm.2.1
        exact ink_apart ((hp.ink (Nat.le_refl _) hij).mono fun c hc => hc.1)
          (hends.isAt u (by omega))

/-- **What is found at the end are addresses of the text**, if each address of the text is
in a value or stands alone. -/
theorem hit_of_late (hv₂ : Veils (Gone u text seen) '[' text late)
    (ha : ∀ {i j}, Hit u.isWord emailPattern text i j →
      InValue u text i j ∨ Lone u text seen i j) :
    ∀ {i j}, Hit u.isWord emailPattern late i j → Hit u.isWord emailPattern text i j := by
  intro i
  induction i using Nat.strong_induction_on with
  | _ i ih =>
    intro j h
    have hlate := (hits_emailPattern u late).fits_of_hit h
    obtain ⟨hfree, -, hm⟩ := address_late u hv hv₂ hlate
    obtain ⟨a, b, hhit, hai, hib⟩ := (hits_emailPattern u text).complete hm
    rcases ha hhit with ⟨i', j', hvalue, hi', hj'⟩ | ⟨hfree', hcontext'⟩
    · exact absurd (hvalue.gone u hv hc (q := i) (by omega) (by omega))
        (hfree i (Nat.le_refl i) hm.1)
    · have hm' := (hits_emailPattern u text).fits_of_hit hhit
      have hkept := address_kept u hv₂ hm' hfree' hcontext'
      by_cases hsame : a = i
      · subst hsame
        have hle := (hits_emailPattern u text).longest hhit hm
        have hge := (hits_emailPattern u late).longest h hkept
        rwa [Nat.le_antisymm hle hge]
      · -- the address before would have been found
        obtain ⟨x, y, hhit', hx, hy⟩ := (hits_emailPattern u late).complete hkept
        obtain ⟨rfl, rfl⟩ := (hits_emailPattern u text).same (q := a) (ih x (by omega) hhit') hhit
          hx hy (Nat.le_refl a) (by omega)
        exact absurd ((hits_emailPattern u late).apart hhit' h hai hib).1 hsame

omit hc in
/-- A value does not begin within the user of an address that is removed. -/
theorem not_begins (hv₂ : Veils (Gone u text seen) '[' text late) {t y : Nat}
    (h : Hit u.isWord assignmentPattern seen x y) (hp : AddressPlaces text i t j) (hi : i < x)
    (hx : x ≤ t)
    (hremoved : Gone u text seen (x - 1) ∨ Covered u.isWord emailPattern late (x - 1)) :
    False := by
  obtain ⟨e, hl, hfree, -⟩ := hit_span u hv h
  obtain ⟨k, s, ha⟩ := assignmentPlaces hl
  have hgone : Gone u text seen x :=
    .inr ⟨x, y, h, Nat.le_refl x, ((hits_assignmentPattern u seen).fits_of_hit h).1⟩
  have hcut : x - 1 + 1 = x := by omega
  rcases hremoved with (hb | ⟨x', y', hhit, hx', hy'⟩) | ⟨x', y', hhit, hx', hy'⟩
  · obtain ⟨a, hhit⟩ := hb.hit u (by rwa [hcut])
    exact not_hit_of_bearerChar u ha.first_bearer a (hcut ▸ hhit)
  · -- a value would end there
    have hle : y' = x := by
      by_contra hne
      have := ((hits_assignmentPattern u seen).apart hhit h (by omega) (by omega)).1
      omega
    obtain ⟨-, -, -, -, hends, -⟩ := hit_span u hv hhit
    exact ink_apart (ha.first.not_space (by decide)) ((hle ▸ hends).isAt u ha.boundary.lt)
  · -- an address would end there, and a word go on
    obtain ⟨hkept, -, hm⟩ := address_late u hv hv₂ ((hits_emailPattern u late).fits_of_hit hhit)
    have hle : y' = x := by
      by_contra hne
      exact hkept x (by omega) (by omega) hgone
    obtain ⟨t', hp'⟩ := places_of_address u hm
    have hlast := hp'.last.mono fun c hc => isWord_of_isAlpha u hc
    rw [hle] at hlast
    obtain ⟨c, hc, hread, hword⟩ := Gone.begins u hv (hcut.symm ▸ hgone)
      (hkept (x - 1) hx' hy') hlast
    rw [hcut] at hc
    by_cases hxt : x = t
    · subst hxt
      rw [hp.sign.of_getElem? hc] at hread
      revert hread
      decide
    · rw [isWord_of_key u hread (.inl ((hp.user x (by omega) (by omega)).of_getElem? hc))] at hword
      cases hword

omit hc in
/-- What is found where an address begins, with its sign, does not end before the address, if
the next character is removed too. -/
theorem not_ends_early (hv₂ : Veils (Gone u text seen) '[' text late) {t y : Nat}
    (h : Hit u.isWord emailPattern late i y) (hm : MatchesAt u.isWord emailPattern text i j)
    (hp : AddressPlaces text i t j) (ht : t < y) (hy : y < j)
    (hafter : ∀ {x' y'}, Hit u.isWord emailPattern late x' y' → y < y' → i ≤ x')
    (hremoved : Gone u text seen y ∨ Covered u.isWord emailPattern late y) : False := by
  obtain ⟨hfree, hcontext, hm'⟩ := address_late u hv hv₂ ((hits_emailPattern u late).fits_of_hit h)
  have hit := hp.lt_sign
  have hcut : y - 1 + 1 = y := by omega
  rcases hremoved with hgone | ⟨x', y', hhit, hx', hy'⟩
  · -- a word would go on there
    obtain ⟨t', hp'⟩ := places_of_address u hm'
    obtain ⟨c, hc, hread, hword⟩ := Gone.begins u hv (hcut.symm ▸ hgone)
      (hfree (y - 1) (by omega) (by omega)) (hp'.last.mono fun c hc => isWord_of_isAlpha u hc)
    rw [hcut] at hc
    rw [isWord_of_key u hread (.inr ((hp.domain y ht hy).of_getElem? hc))] at hword
    cases hword
  · -- an address that begins there would reach beyond
    have hge := hafter hhit hy'
    have hxy : x' = y := by
      by_contra hne
      have := ((hits_emailPattern u late).apart h hhit hge (by omega)).2
      omega
    subst hxy
    obtain ⟨hfree', -, hm''⟩ := address_late u hv hv₂ ((hits_emailPattern u late).fits_of_hit hhit)
    obtain ⟨t', hp'⟩ := places_of_address u hm''
    have hlt := hp'.lt_sign
    have hend := hp'.lt_end
    have hout : j ≤ t' := by
      by_contra hin
      have := hp.sign_unique hp'.sign (by omega) (by omega)
      omega
    have hkept := address_kept u hv₂ hm (fun q hi hq => by
      by_cases hqx : q < x'
      · exact hfree q hi hqx
      · exact hfree' q (by omega) (by omega)) hcontext
    have := (hits_emailPattern u late).longest h hkept
    omega

/-- What is found before an address ends before it, when the addresses there are in values
or found as they are. -/
theorem ends_before (hv₂ : Veils (Gone u text seen) '[' text late)
    (ih : ∀ a < i, ∀ {b}, Hit u.isWord emailPattern text a b →
      InValue u text a b ∨ Hit u.isWord emailPattern late a b)
    (h : Hit u.isWord emailPattern text i j) {x y : Nat} (hxi : x < i)
    (hhit : Hit u.isWord emailPattern late x y) : y ≤ i := by
  obtain ⟨hfree, -, hm⟩ := address_late u hv hv₂ ((hits_emailPattern u late).fits_of_hit hhit)
  obtain ⟨a, b, hhit', hax, hxb⟩ := (hits_emailPattern u text).complete hm
  rcases ih a (by omega) hhit' with ⟨i', j', hvalue, hi', hj'⟩ | hfound
  · exact absurd (hvalue.gone u hv hc (q := x) (by omega) (by omega))
      (hfree x (Nat.le_refl x) hm.1)
  · obtain ⟨rfl, rfl⟩ := (hits_emailPattern u late).same (q := x) hfound hhit hax hxb
      (Nat.le_refl x) hm.1
    by_contra hlt
    have := ((hits_emailPattern u text).apart hhit' h (by omega) (by omega)).1
    omega

/-- **An address that is removed is in a value, or is found as it is.** -/
theorem found_of_removed (hv₂ : Veils (Gone u text seen) '[' text late)
    (hremoved : ∀ {i j}, Hit u.isWord emailPattern text i j → ∀ q, i ≤ q → q < j →
      Gone u text seen q ∨ Covered u.isWord emailPattern late q) :
    ∀ {i j}, Hit u.isWord emailPattern text i j →
      InValue u text i j ∨ Hit u.isWord emailPattern late i j := by
  intro i
  induction i using Nat.strong_induction_on with
  | _ i ih =>
    intro j h
    have hm := (hits_emailPattern u text).fits_of_hit h
    obtain ⟨t, hp⟩ := places_of_address u hm
    have hit := hp.lt_sign
    have htj := hp.lt_end
    have earlier {x y : Nat} (hxi : x < i) (hhit : Hit u.isWord emailPattern late x y) : y ≤ i :=
      ends_before u hv hc hv₂ (fun a ha _ => ih a ha) h hxi hhit
    rcases hremoved h t (by omega) (by omega) with
      (hb | ⟨x, y, hhit, hx, hy⟩) | ⟨x, y, hhit, hx, hy⟩
    · -- no sign stands in a bearer credential
      obtain ⟨a, g, b, -, hpb, hat, htb⟩ := hb.places
      exact (IsAt.apart hp.sign (hpb.no_sign hat htb) fun c hc hc' => hc'.2.2 hc).elim
    · -- the value does not begin within the address
      obtain ⟨e, hl, hfree, -, hends, -⟩ := hit_span u hv hhit
      refine .inl ⟨x, y, hc.value_of_hit u hv hhit, ?_, hends.past_address u hm (by omega) hy⟩
      by_contra hxi
      exact not_begins u hv hv₂ hhit hp (by omega) hx (hremoved h (x - 1) (by omega) (by omega))
    · right
      obtain ⟨-, hcontext, hm'⟩ :=
        address_late u hv hv₂ ((hits_emailPattern u late).fits_of_hit hhit)
      have hix : i ≤ x := by
        by_contra hlt
        have := earlier (by omega) hhit
        omega
      by_cases hsame : i = x
      · subst hsame
        have hle := (hits_emailPattern u text).longest h hm'
        by_cases hyj : y = j
        · exact hyj ▸ hhit
        · refine (not_ends_early u hv hv₂ hhit hm hp hy (by omega) ?_
            (hremoved h y (by omega) (by omega))).elim
          intro x' y' hhit' hlt
          by_contra hlt'
          have := earlier (by omega) hhit'
          omega
      · -- the character before is removed with an address that has no sign
        rcases hremoved h (x - 1) (by omega) (by omega) with hgone | ⟨x', y', hhit', hx', hy'⟩
        · exact absurd hgone (hcontext (x - 1) (by omega))
        · have hix' : i ≤ x' := by
            by_contra hlt
            have := earlier (by omega) hhit'
            omega
          have hle : y' ≤ x := by
            by_contra hlt
            have := ((hits_emailPattern u late).apart hhit' hhit (by omega) (by omega)).1
            omega
          obtain ⟨-, -, hm''⟩ :=
            address_late u hv hv₂ ((hits_emailPattern u late).fits_of_hit hhit')
          obtain ⟨t', hp'⟩ := places_of_address u hm''
          have := hp'.lt_sign
          have := hp'.lt_end
          have := hp.sign_unique hp'.sign (by omega) (by omega)
          omega

end

section
include hv

/-- What a late address takes is no white space and no sign of an assignment. -/
theorem ink_of_covered (hv₂ : Veils (Gone u text seen) '[' text late)
    (h : Covered u.isWord emailPattern late q) :
    IsAt text (fun c => isSpace c = false ∧ c ≠ ':' ∧ c ≠ '=') q := by
  obtain ⟨a, c, hhit, ha, hc⟩ := h
  obtain ⟨t, hp⟩ := places_of_address u
    (address_late u hv hv₂ ((hits_emailPattern u late).fits_of_hit hhit)).2.2
  exact hp.ink ha hc

/-- What is hit from before a removed part on does not end in it. -/
theorem end_le_of_removed (hv₂ : Veils (Gone u text seen) '[' text late) {b y : Nat}
    (hb : b ≤ text.length)
    (hremoved : ∀ q, i ≤ q → q < b → Gone u text seen q ∨ Covered u.isWord emailPattern late q)
    {x : Nat} (hhit : Hit u.isWord assignmentPattern seen x y) (hx : x ≤ i) (hy : i < y) :
    b ≤ y := by
  by_contra hlt
  obtain ⟨-, -, -, -, hends, -⟩ := hit_span u hv hhit
  have hspace := hends.isAt u (by omega)
  rcases hremoved y (by omega) (by omega) with (hbearer | ⟨x', y', hhit', hx', hy'⟩) | hlate
  · rcases hends with hend | hend
    · omega
    · exact hend.2 hbearer
  · have hsame : x' = y := by
      by_contra hne
      have := ((hits_assignmentPattern u seen).same (q := y - 1) hhit hhit' (by omega) (by omega)
        (by omega) (by omega)).2
      omega
    subst hsame
    obtain ⟨e', hl', -⟩ := hit_span u hv hhit'
    obtain ⟨k', x'', hp'⟩ := assignmentPlaces hl'
    exact ink_apart (hp'.first.not_space (by decide)) hspace
  · exact ink_apart ((ink_of_covered u hv hv₂ hlate).mono fun c hc => hc.1) hspace

/-- **If each assignment is removed, it lies in a part that is hit.** -/
theorem cover_of_removed (hv₂ : Veils (Gone u text seen) '[' text late)
    (hremoved : ∀ {i b}, Hit u.isWord assignmentPattern text i b → ∀ q, i ≤ q → q < b →
      Gone u text seen q ∨ Covered u.isWord emailPattern late q) :
    Cover u text seen := by
  intro i b h
  obtain ⟨e, hl, heb, -⟩ := hit_assigned u h
  obtain ⟨k, x, hp⟩ := assignmentPlaces hl
  have hik := hp.lt_key
  have hkx := hp.le_sign
  have hxe := hp.lt_value
  have hlen := ((hits_assignmentPattern u text).fits_of_hit h).2.1
  have reaches {x₀ y : Nat} (hhit : Hit u.isWord assignmentPattern seen x₀ y) (hx₀ : x₀ ≤ i)
      (hy : i < y) : ∃ x y, Hit u.isWord assignmentPattern seen x y ∧ x ≤ i ∧ b ≤ y :=
    ⟨x₀, y, hhit, hx₀, end_le_of_removed u hv hv₂ hlen (hremoved h) hhit hx₀ hy⟩
  by_cases hfree : InBearer u text i
  · -- the sign is outside the credential that takes the key
    obtain ⟨a, g, b', hhit, hpb, hai, hib⟩ := hfree.places
    have hkb := hp.key_le hib fun c hc =>
      ledBy_bearerPattern.hit_takes solid_bearerPattern hhit hc
    rcases hremoved h x (by omega) (by omega) with (hb | ⟨x₀, y, hhit', hx₀, hy⟩) | hlate
    · obtain ⟨a', g', c', -, hpb', ha', hc'⟩ := hb.places
      exact (hp.sign.apart (hpb'.no_sign ha' hc') fun c hc hc' =>
        hc.elim hc'.1 hc'.2.1).elim
    · refine reaches hhit' ?_ (by omega)
      obtain ⟨e', hl', hfree', -⟩ := hit_span u hv hhit'
      obtain ⟨k', x', hp'⟩ := assignmentPlaces hl'
      by_contra hlt
      by_cases hk : x₀ < k
      · exact hfree' ⟨a, b', hhit, by omega, by omega⟩
      · exact hp.no_letter (by omega) (by omega) hp'.first (by decide) (by decide)
    · exact (hp.sign.apart (ink_of_covered u hv hv₂ hlate) fun c hc hc' =>
        hc.elim hc'.2.1 hc'.2.2).elim
  · obtain ⟨j, hspan⟩ := exists_span u hl hfree
    obtain ⟨x₀, y, hhit, hx₀, hy⟩ := hspan.hit u hv
    exact reaches hhit hx₀ hy

end

end Addresses

/-! ## What is lost -/

section Lost
variable (text : List Char)

def afterBearer : List (Char × Bool) :=
  removeHits u.isWord '[' bearerPattern (text.map fun c => (c, false))

def afterAssignments : List (Char × Bool) :=
  removeHits u.isWord '[' assignmentPattern (afterBearer u text)

theorem removed_afterBearer : Removed (afterBearer u text) q ↔ InBearer u text q := by
  have hnone : ¬Removed (text.map fun c => (c, false)) q := by
    intro ⟨c, hc⟩
    rw [List.getElem?_map] at hc
    cases htext : text[q]? with
    | none => simp [htext] at hc
    | some d => simp [htext] at hc
  rw [afterBearer, removed_removeHits solid_bearerPattern, view_kept]
  exact or_iff_right hnone

theorem removed_afterAssignments : Removed (afterAssignments u text) q ↔
    Gone u text (view '[' (afterBearer u text)) q := by
  rw [afterAssignments, removed_removeHits solid_assignmentPattern, removed_afterBearer]
  rfl

theorem removed_redactMask : Removed (redactMask u text) q ↔
    Gone u text (view '[' (afterBearer u text)) q ∨
      Covered u.isWord emailPattern (view '[' (afterAssignments u text)) q := by
  rw [← removed_afterAssignments, ← removed_removeHits solid_emailPattern]
  rfl

theorem map_fst_afterBearer : (afterBearer u text).map Prod.fst = text := by
  rw [afterBearer, map_fst_removeHits solid_bearerPattern]
  simp [Function.comp_def]

theorem veils_afterBearer :
    Veils (InBearer u text) '[' text (view '[' (afterBearer u text)) :=
  (veils_view (map_fst_afterBearer u text)).congr fun _ => removed_afterBearer u text

theorem veils_afterAssignments : Veils (Gone u text (view '[' (afterBearer u text))) '[' text
    (view '[' (afterAssignments u text)) := by
  refine (veils_view ?_).congr fun _ => removed_afterAssignments u text
  rw [afterAssignments, map_fst_removeHits solid_assignmentPattern, map_fst_afterBearer]

end Lost

theorem untangled_of_nothingLost {text : String} (h : NothingLost u text) :
    Untangled u text.toList := by
  have hv := veils_afterBearer u text.toList
  have hv₂ := veils_afterAssignments u text.toList
  have hremoved {pattern : Parts Char} (hp : pattern ∈ sensitiveValues) {i j : Nat}
      (hhit : Hit u.isWord pattern text.toList i j) (q : Nat) (hi : i ≤ q) (hj : q < j) :=
    (removed_redactMask u text.toList).mp (h.covered pattern hp q ⟨i, j, hhit, hi, hj⟩)
  have hc : Cover u text.toList (view '[' (afterBearer u text.toList)) :=
    cover_of_removed u hv hv₂ (hremoved (by simp [sensitiveValues]))
  refine ⟨hc.taken u hv, hc.whole u hv, fun {i j} hhit => ?_⟩
  rw [← InValue, ← lone_iff u hv hc hhit]
  refine (found_of_removed u hv hc hv₂ (hremoved (by simp [sensitiveValues])) hhit).imp_right
    fun hlate => ?_
  obtain ⟨hfree, hcontext, -⟩ :=
    address_late u hv hv₂ ((hits_emailPattern u _).fits_of_hit hlate)
  exact ⟨hfree, hcontext⟩

theorem nothingLost_of_untangled {text : String} (h : Untangled u text.toList) :
    NothingLost u text := by
  have hv := veils_afterBearer u text.toList
  have hv₂ := veils_afterAssignments u text.toList
  have hc : Cover u text.toList (view '[' (afterBearer u text.toList)) := h.cover u hv
  have haddress {i j : Nat} (hhit : Hit u.isWord emailPattern text.toList i j) :=
    (lone_iff u hv hc hhit).mpr (h.address hhit)
  refine ⟨map_fst_redactMask u text.toList, rendered_redactMask u text, ?_⟩
  intro pattern hp q hq
  rw [removed_redactMask]
  simp only [sensitiveValues, List.mem_cons, List.not_mem_nil, or_false] at hp
  rcases hp with rfl | rfl | rfl
  · exact .inl (.inl hq)
  · obtain ⟨i, b, hhit, hi, hb⟩ := hq
    obtain ⟨x, y, hhit', hx, hy⟩ := hc hhit
    exact .inl (.inr ⟨x, y, hhit', by omega, by omega⟩)
  · obtain ⟨i, j, hhit, hi, hj⟩ := hq
    rcases haddress hhit with ⟨i', j', hvalue, hi', hj'⟩ | ⟨hfree, hcontext⟩
    · exact .inl (hvalue.gone u hv hc (by omega) (by omega))
    · have hm := (hits_emailPattern u text.toList).fits_of_hit hhit
      obtain ⟨x, y, hlate, hx, hy⟩ :=
        (hits_emailPattern u _).complete (address_kept u hv₂ hm hfree hcontext)
      obtain ⟨rfl, rfl⟩ := (hits_emailPattern u text.toList).same (q := i)
        (hit_of_late u hv hc hv₂ haddress hlate) hhit hx hy (Nat.le_refl i) hm.1
      exact .inr ⟨_, _, hlate, hi, hj⟩

/-- **Redaction removes every match of every pattern exactly where no match of an earlier
pattern cuts one of a later pattern.** -/
theorem nothingLost_iff (text : String) : NothingLost u text ↔ Untangled u text.toList :=
  ⟨untangled_of_nothingLost u, nothingLost_of_untangled u⟩

/-- The bearer credential takes the key of the assignment, and the secret stays. -/
theorem not_nothingLost : ¬∀ text, NothingLost plainUnicode text := by
  intro h
  have hmatch : Covered plainUnicode.isWord assignmentPattern "Bearer token=abc".toList 13 := by
    decide
  have hstays : ¬Removed (redactMask plainUnicode "Bearer token=abc".toList) 13 := by
    decide
  exact hstays ((h _).covered assignmentPattern (by simp [sensitiveValues]) 13 hmatch)

end AgenticDelivery.Api
