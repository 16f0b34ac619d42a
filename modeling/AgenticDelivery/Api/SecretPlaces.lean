import AgenticDelivery.Api.SecretMatches
import AgenticDelivery.Data.Places

/-! # Where the sensitive values of a text are

The places at which the parts of a match stand, and what they say of two matches that
meet: a bearer credential takes the key of an assignment or misses its lead, and no
sign and no white space stands in an address. -/
namespace AgenticDelivery.Api
open AgenticDelivery.Data
open Regex (wordBefore wordAfter)

variable {word : Char → Bool}

/-! ## The places of a match -/

variable {text : List Char} {i j : Nat}

/-- Some character of ASCII in `chars` reads as the one at the position. -/
def ReadsAt (text : List Char) (chars : String) (q : Nat) : Prop :=
  IsAt text (fun c => anyCase chars c = true) q

theorem ReadsAt.apart {q : Nat} {chars chars' : String} (h : ReadsAt text chars q)
    (h' : ReadsAt text chars' q) (hc : chars.toList.all (fun c => c.toNat < 128) = true)
    (hc' : chars'.toList.all (fun c => c.toNat < 128 && !chars.toList.contains c) = true) :
    False := by
  refine IsAt.apart h h' fun d hd hd' => ?_
  obtain ⟨c, hmem, hr⟩ := List.any_eq_true.mp hd
  obtain ⟨c', hmem', hr'⟩ := List.any_eq_true.mp hd'
  have hascii := List.all_eq_true.mp hc c hmem
  have hout := List.all_eq_true.mp hc' c' hmem'
  rw [Bool.and_eq_true, decide_eq_true_eq] at hout
  rw [decide_eq_true_eq] at hascii
  rw [← ignoreCase_unique hascii hout.1 hr hr', List.contains_iff_mem.mpr hmem] at hout
  cases hout.2

theorem anyCase_mono {chars chars' : String} (h : chars.toList ⊆ chars'.toList) {d : Char}
    (hd : anyCase chars d = true) : anyCase chars' d = true := by
  obtain ⟨c, hmem, hc⟩ := List.any_eq_true.mp hd
  exact List.any_eq_true.mpr ⟨c, h hmem, hc⟩

theorem isSpace_of_anyCase {chars : String}
    (h : chars.toList.all (fun c => !isSpace c) = true) {d : Char} (hd : anyCase chars d = true) :
    isSpace d = false := by
  obtain ⟨c, hmem, hc⟩ := List.any_eq_true.mp hd
  rw [isSpace_of_ignoreCase hc]
  simpa using List.all_eq_true.mp h c hmem

/-- A key that is spelled stands where its lead begins. -/
theorem Spelled.readsAt {name key tail : List Char} (h : Spelled name key)
    (hseg : segment text i j = key ++ tail) {n : Nat} {chars : String}
    (hn : name[n]?.any (fun c => chars.toList.contains c) = true) :
    ReadsAt text chars (i + n) := by
  obtain ⟨c, hc, hmem⟩ := (Option.any_eq_true _ _).mp hn
  obtain ⟨hlen, hall⟩ := List.forall₂_iff_get.mp h
  obtain ⟨hlt, rfl⟩ := List.getElem?_eq_some_iff.mp hc
  have hlt' : n < key.length := hlen ▸ hlt
  have hat := @getElem?_of_segment _ text i j [] key tail n hseg hlt'
  rw [List.length_nil, Nat.add_zero, List.getElem?_eq_getElem hlt'] at hat
  exact ⟨_, hat, List.any_eq_true.mpr ⟨_, List.contains_iff_mem.mp hmem, hall n hlt hlt'⟩⟩

/-- Where the parts of a bearer credential stand. -/
structure BearerPlaces (word : Char → Bool) (text : List Char) (a g b : Nat) : Prop where
  boundary : IsAt text (fun c => wordBefore word false (text.take a) ≠ word c) a
  first : ReadsAt text "b" a
  key : ∀ q, a ≤ q → q < a + 6 → ReadsAt text "bear" q
  lt_gap : a + 6 < g
  gap : ∀ q, a + 6 ≤ q → q < g → IsAt text (fun c => isSpace c = true) q
  lt_run : g < b
  run : ∀ q, g ≤ q → q < b → IsAt text (fun c => bearerChar c = true) q

/-- Where the parts of an assignment's lead stand: its key to `k`, its sign at `x`. -/
structure AssignmentPlaces (word : Char → Bool) (text : List Char) (i k x e : Nat) : Prop where
  boundary : IsAt text (fun c => wordBefore word false (text.take i) ≠ word c) i
  lt_key : i < k
  first : ReadsAt text "apst" i
  key : ∀ q, i ≤ q → q < k → ReadsAt text "acdeikoprstwyn_-" q
  le_sign : k ≤ x
  sign : IsAt text (fun c => c = ':' ∨ c = '=') x
  lt_value : x < e
  gap : ∀ q, k ≤ q → q < e → q ≠ x → IsAt text (fun c => isSpace c = true) q

theorem AssignmentPlaces.lt {k x e : Nat} (h : AssignmentPlaces word text i k x e) : i < e := by
  have := h.lt_key
  have := h.le_sign
  have := h.lt_value
  omega

theorem boundaryAt {phrases : List (List (Char → Bool))} {key tail : List Char}
    (h : IsKey word phrases (wordBefore word false (text.take i)) key)
    (hseg : segment text i j = key ++ tail) (hne : key ≠ []) :
    IsAt text (fun c => wordBefore word false (text.take i) ≠ word c) i := by
  obtain ⟨c, key, rfl⟩ := List.exists_cons_of_ne_nil hne
  have hat := @getElem?_of_segment _ text i j [] (c :: key) tail 0 hseg (Nat.zero_lt_succ _)
  exact ⟨c, hat, h.1⟩

theorem bearerPlaces (h : MatchesAt word bearerPattern text i j) :
    ∃ g, BearerPlaces word text i g j := by
  obtain ⟨g, ⟨hi, ⟨key, gap, hseg, hkey, hne, hgap⟩, hrun₀⟩, hj, hrun⟩ :=
    ledBy_bearerPattern.matchesAt_iff.mp h
  have hlen := congrArg List.length hseg
  rw [length_segment (Nat.le_of_lt hrun₀.lt), List.length_append] at hlen
  have hspelled : Spelled "bearer".toList key := by
    obtain ⟨-, ps, hps, hm⟩ := hkey
    obtain ⟨name, hname, hs⟩ := named_bearer.spelled hps hm
    rwa [List.mem_singleton.mp hname] at hs
  have hsix : key.length = 6 := hspelled.length_eq.symm
  have hpos := List.length_pos_of_ne_nil hne
  refine ⟨g, boundaryAt hkey hseg ?_, hspelled.readsAt (n := 0) hseg (by decide), ?_, by omega,
    ?_, hj, hrun⟩
  · rintro rfl
    cases hsix
  · intro q hq hq'
    have hall : ∀ n < 6,
        "bearer".toList[n]?.any (fun c => "bear".toList.contains c) = true := by decide
    have := hspelled.readsAt hseg (hall (q - i) (by omega))
    rwa [Nat.add_sub_cancel' hq] at this
  · intro q hq hq'
    have hcut : segment text i g = key ++ (gap ++ []) := by simpa using hseg
    exact isAt_of_segment hcut hgap (by omega) (by omega)

theorem assignmentPlaces (h : LeadAt word (AssignmentLead word) (fun c => !isSpace c) text i j) :
    ∃ k x, AssignmentPlaces word text i k x j := by
  obtain ⟨hi, ⟨key, gap, sign, gap', hseg, hkey, hgap, hsign, hgap'⟩, hvalue⟩ := h
  have hlen := congrArg List.length hseg
  simp only [length_segment (Nat.le_of_lt hvalue.lt), List.length_append, List.length_cons] at hlen
  obtain ⟨name, hname, hspelled⟩ : ∃ name ∈ secretNames, Spelled name key := by
    obtain ⟨-, ps, hps, hm⟩ := hkey
    exact named_secretLetters.spelled hps hm
  have hlong : ∀ name ∈ secretNames, 0 < name.length := by decide
  have hfirst : ∀ name ∈ secretNames,
      name[0]?.any (fun c => "apst".toList.contains c) = true := by decide
  have hclass : ∀ name ∈ secretNames, ∀ n < name.length,
      name[n]?.any (fun c => "acdeikoprstwyn_-".toList.contains c) = true := by decide
  have hpos := hlong name hname
  rw [hspelled.length_eq] at hpos
  refine ⟨i + key.length, i + key.length + gap.length, boundaryAt hkey hseg ?_, by omega,
    hspelled.readsAt (n := 0) hseg (hfirst name hname), ?_, by omega, ?_, by omega, ?_⟩
  · exact List.ne_nil_of_length_pos hpos
  · intro q hq hq'
    have := hspelled.readsAt hseg (hclass name hname (q - i) (by rw [hspelled.length_eq]; omega))
    rwa [Nat.add_sub_cancel' hq] at this
  · have hcut : segment text i j = (key ++ gap) ++ ([sign] ++ gap') := by simp [hseg]
    refine isAt_of_segment hcut (by simpa using hsign) ?_ ?_
    · rw [List.length_append]
      omega
    · simp only [List.length_append, List.length_singleton]
      omega
  · intro q hq hq' hx
    by_cases hlt : q < i + key.length + gap.length
    · exact isAt_of_segment hseg hgap hq hlt
    · have hcut : segment text i j = (key ++ (gap ++ [sign])) ++ (gap' ++ []) := by simp [hseg]
      refine isAt_of_segment hcut hgap' ?_ ?_
      · simp only [List.length_append, List.length_singleton]
        omega
      · simp only [List.length_append, List.length_singleton]
        omega

/-- Where the parts of an address stand: its `@` at `t`. -/
structure AddressPlaces (text : List Char) (i t j : Nat) : Prop where
  lt_sign : i < t
  user : ∀ q, i ≤ q → q < t → IsAt text (fun c => localChar c = true) q
  sign : IsAt text (· = '@') t
  lt_end : t + 1 < j
  domain : ∀ q, t < q → q < j → IsAt text (fun c => domainChar c = true) q
  last : IsAt text (fun c => c.isAlpha = true) (j - 1)

/-- An address has one sign. -/
theorem AddressPlaces.sign_unique {t q : Nat} (h : AddressPlaces text i t j)
    (hsign : IsAt text (· = '@') q) (hi : i ≤ q) (hj : q < j) : q = t := by
  have no_sign {p : Char → Bool} (hat : IsAt text (fun c => p c = true) q) (hp : p '@' = false) :
      False := by
    refine IsAt.apart hat hsign fun c hc hc' => ?_
    rw [hc', hp] at hc
    cases hc
  rcases Nat.lt_trichotomy q t with hlt | heq | hlt
  · exact (no_sign (h.user q hi hlt) (by decide)).elim
  · exact heq
  · exact (no_sign (h.domain q hlt hj) (by decide)).elim

theorem domainChar_of_isAlpha {c : Char} (h : c.isAlpha = true) : domainChar c = true := by
  have halnum : c.isAlphanum = true := by
    show (c.isAlpha || c.isDigit) = true
    rw [h, Bool.true_or]
  rw [domainChar, halnum, Bool.true_or]

theorem addressPlaces (hj : j ≤ text.length) (h : IsAddress (segment text i j)) :
    ∃ t, AddressPlaces text i t j := by
  obtain ⟨user, domain, top, hseg, ⟨hpos, huser⟩, ⟨-, hdomain⟩, hpos', htop⟩ := h
  have hlen := congrArg List.length hseg
  simp only [length_segment hj, List.length_append, List.length_cons] at hlen
  have hsign : segment text i j = user ++ (['@'] ++ (domain ++ '.' :: top)) := by simp [hseg]
  have hback : segment text i j = (user ++ ['@']) ++ ((domain ++ '.' :: top) ++ []) := by
    simp [hseg]
  have htail : segment text i j = (user ++ '@' :: (domain ++ ['.'])) ++ (top ++ []) := by
    simp [hseg]
  refine ⟨i + user.length, by omega, ?_, ?_, by omega, ?_, ?_⟩
  · intro q hq hq'
    have hcut : segment text i j = [] ++ (user ++ '@' :: (domain ++ '.' :: top)) := hseg
    exact isAt_of_segment hcut huser (by simpa using hq) (by simpa using hq')
  · exact isAt_of_segment hsign (by simp) (Nat.le_refl _) (by simp)
  · intro q hq hq'
    refine isAt_of_segment hback ?_ ?_ ?_
    · intro c hc
      rcases List.mem_append.mp hc with hc | hc
      · exact hdomain c hc
      · rcases List.mem_cons.mp hc with rfl | hc
        · decide
        · exact domainChar_of_isAlpha (htop c hc)
    · simp only [List.length_append, List.length_singleton]
      omega
    · simp only [List.length_append, List.length_cons, List.length_nil]
      omega
  · refine isAt_of_segment htail htop ?_ ?_
    · simp only [List.length_append, List.length_cons, List.length_nil]
      omega
    · simp only [List.length_append, List.length_cons, List.length_nil]
      omega

theorem matchesAt_emailPattern (u : Unicode) : MatchesAt u.isWord emailPattern text i j ↔
    j ≤ text.length ∧ IsAddress (segment text i j) ∧
      IsAt text (fun c => wordBefore u.isWord false (text.take i) ≠ u.isWord c) i ∧
      wordAfter u.isWord false (text.drop j) = false := by
  have first (hj : j ≤ text.length) (h : IsAddress (segment text i j)) :
      i < j ∧ ∃ c, text[i]? = some c ∧
        ∀ a, wordAfter u.isWord a (segment text i j) = u.isWord c := by
    obtain ⟨t, hp⟩ := addressPlaces hj h
    have hlt := hp.lt_sign
    have hend := hp.lt_end
    obtain ⟨c, hc, -⟩ := hp.user i (Nat.le_refl i) hlt
    refine ⟨by omega, c, hc, fun a => ?_⟩
    rw [segment_cons hc (by omega)]
    rfl
  constructor
  · intro ⟨_, hj, hm⟩
    obtain ⟨hb, haddr, hend⟩ := matches_emailPattern.mp hm
    obtain ⟨_, c, hc, hword⟩ := first hj haddr
    rw [haddr.wordBefore_eq] at hend
    rw [hword] at hb
    exact ⟨hj, haddr, ⟨c, hc, hb⟩, by simpa using hend⟩
  · intro ⟨hj, haddr, hb, hend⟩
    obtain ⟨hlt, c, hc, hword⟩ := first hj haddr
    refine ⟨hlt, hj, matches_emailPattern.mpr ⟨?_, haddr, ?_⟩⟩
    · rw [hword]
      exact hb.of_getElem? hc
    · rw [haddr.wordBefore_eq, hend]
      exact nofun

/-! ## Bearer credentials beside assignments -/

section Beside
variable {a g b k x e q : Nat}

theorem ReadsAt.not_space {chars : String} (h : ReadsAt text chars q)
    (hc : chars.toList.all (fun c => !isSpace c) = true) :
    IsAt text (fun c => isSpace c = false) q :=
  h.mono fun _ hd => isSpace_of_anyCase hc hd

theorem ink_apart (h : IsAt text (fun c => isSpace c = false) q)
    (h' : IsAt text (fun c => isSpace c = true) q) : False := by
  refine h.apart h' fun c hc hc' => ?_
  rw [hc'] at hc
  cases hc

/-- No sign stands in a bearer credential. -/
theorem BearerPlaces.no_sign (hb : BearerPlaces word text a g b) (hq : a ≤ q) (hq' : q < b) :
    IsAt text (fun c => c ≠ ':' ∧ c ≠ '=' ∧ c ≠ '@') q := by
  have out {p : Char → Bool} (hp : ([':', '=', '@'].all fun c => !p c) = true) (c : Char)
      (hc : p c = true) : c ≠ ':' ∧ c ≠ '=' ∧ c ≠ '@' := by
    refine ⟨?_, ?_, ?_⟩
    all_goals
      rintro rfl
      simp [hc] at hp
  by_cases hkey : q < a + 6
  · exact (hb.key q hq hkey).mono (out (by decide))
  · by_cases hgap : q < g
    · exact (hb.gap q (by omega) hgap).mono (out (by decide))
    · exact (hb.run q (by omega) hq').mono (out (by decide))

/-- No letter is read behind the key of a lead. -/
theorem AssignmentPlaces.no_letter (ha : AssignmentPlaces word text i k x e) (hk : k ≤ q)
    (he : q < e) {chars : String} (h : ReadsAt text chars q)
    (hspace : chars.toList.all (fun c => !isSpace c) = true)
    (hsign : (anyCase chars ':' || anyCase chars '=') = false) : False := by
  obtain ⟨hcolon, hequals⟩ := Bool.or_eq_false_iff.mp hsign
  by_cases hx : q = x
  · subst hx
    refine IsAt.apart h ha.sign fun c hread hc => ?_
    rcases hc with rfl | rfl
    · rw [hcolon] at hread
      cases hread
    · rw [hequals] at hread
      cases hread
  · exact ink_apart (h.not_space hspace) (ha.gap q hk he hx)

/-- A bearer credential that does not reach a lead's first character misses the lead. -/
theorem BearerPlaces.misses (hb : BearerPlaces word text a g b)
    (ha : AssignmentPlaces word text i k x e) (hout : ¬(a ≤ i ∧ i < b)) (hq : a ≤ q) (hq' : q < b)
    (hi : i ≤ q) (he : q < e) : False := by
  have hfirst := hb.first
  have hlt : i < a := by omega
  by_cases hk : a < k
  · exact (ha.key a (by omega) hk).apart hfirst (by decide) (by decide)
  · exact ha.no_letter (by omega) (by omega) hfirst (by decide) (by decide)

/-- A key begins with what a bearer credential would take. -/
theorem AssignmentPlaces.first_bearer (ha : AssignmentPlaces word text i k x e) :
    IsAt text (fun c => bearerChar c = true) i :=
  ha.first.mono fun _ hc => anyCase_mono (by decide) hc

theorem AssignmentPlaces.key_bearer (ha : AssignmentPlaces word text i k x e) (hi : i ≤ q)
    (hk : q < k) : IsAt text (fun c => bearerChar c = true) q :=
  (ha.key q hi hk).mono fun _ hc => anyCase_mono (by decide) hc

/-- A bearer credential that reaches the first character of a lead takes the key. -/
theorem AssignmentPlaces.key_le (ha : AssignmentPlaces word text i k x e) (hib : i < b)
    (hend : ∀ c, text[b]? = some c → bearerChar c = false) : k ≤ b := by
  by_contra hlt
  obtain ⟨c, hc, hbear⟩ := ha.key_bearer (q := b) (by omega) (by omega)
  rw [hend c hc] at hbear
  cases hbear

/-! ## Word characters -/

variable (u : Unicode)

theorem isWord_of_anyCase {c : Char} (h : anyCase "bear" c = true) : u.isWord c = true := by
  obtain ⟨l, hmem, hl⟩ := List.any_eq_true.mp h
  have hlow : c.toLower = l ∧ 97 ≤ l.toNat ∧ l.toNat ≤ 122 := by
    simp only [List.mem_cons, List.not_mem_nil, or_false, String.reduceToList] at hmem
    rcases hmem with rfl | rfl | rfl | rfl
    all_goals exact ⟨by simpa [ignoreCase] using hl, by decide, by decide⟩
  have halnum : c.isAlphanum = true := by
    rw [isAlphanum_iff]
    rcases toLower_cases c with hsame | hcase
    · rw [← hsame, hlow.1]
      omega
    · omega
  have hcode := isAlphanum_iff.mp halnum
  rw [u.isWord_ascii (by omega), asciiWord, halnum, Bool.true_or]

/-- What holds of every character of ASCII by evaluation. -/
theorem ascii_induction {p : Char → Bool}
    (hp : (List.range 128).all (fun n => p (Char.ofNat n)) = true) {c : Char}
    (hc : c.toNat < 128) : p c = true := by
  have := List.all_eq_true.mp hp c.toNat (List.mem_range.mpr hc)
  rwa [Char.ofNat_toNat] at this

theorem localChar_ascii {c : Char} (h : localChar c = true) : c.toNat < 128 := by
  rw [localChar, Bool.or_eq_true] at h
  rcases h with h | h
  · have := isAlphanum_iff.mp h
    omega
  · have hall : ∀ c ∈ "._%+-".toList, c.toNat < 128 := List.all_iff_forall_prop.mp (by decide)
    exact hall c (List.contains_iff_mem.mp h)

theorem domainChar_ascii {c : Char} (h : domainChar c = true) : c.toNat < 128 := by
  rw [domainChar, Bool.or_eq_true] at h
  rcases h with h | h
  · have := isAlphanum_iff.mp h
    omega
  · have hall : ∀ c ∈ ".-".toList, c.toNat < 128 := List.all_iff_forall_prop.mp (by decide)
    exact hall c (List.contains_iff_mem.mp h)

theorem isWord_of_isAlpha {c : Char} (h : c.isAlpha = true) : u.isWord c = true := by
  have halnum : c.isAlphanum = true := by
    show (c.isAlpha || c.isDigit) = true
    rw [h, Bool.true_or]
  have hcode := isAlphanum_iff.mp halnum
  rw [u.isWord_ascii (by omega), asciiWord, halnum, Bool.true_or]

/-- The first letter of a key is a word character where an address goes on. -/
theorem isWord_of_key {c : Char} (h : anyCase "apst" c = true)
    (hc : localChar c = true ∨ domainChar c = true) : u.isWord c = true := by
  have hascii : c.toNat < 128 := hc.elim localChar_ascii domainChar_ascii
  have hall : (!(anyCase "apst" c && (localChar c || domainChar c)) || asciiWord c) = true :=
    ascii_induction (p := fun c => !(anyCase "apst" c && (localChar c || domainChar c)) ||
      asciiWord c) (by decide) hascii
  rw [u.isWord_ascii hascii]
  rcases hc with hc | hc
  · simpa [h, hc] using hall
  · simpa [h, hc] using hall

/-- No white space and no sign stands in an address. -/
theorem AddressPlaces.ink {t : Nat} (h : AddressPlaces text i t j) (hi : i ≤ q) (hj : q < j) :
    IsAt text (fun c => isSpace c = false ∧ c ≠ ':' ∧ c ≠ '=') q := by
  have out {c : Char} (hc : localChar c = true ∨ domainChar c = true) :
      isSpace c = false ∧ c ≠ ':' ∧ c ≠ '=' := by
    have hall : (!(localChar c || domainChar c) || (!isSpace c && c != ':' && c != '=')) = true :=
      ascii_induction (p := fun c => !(localChar c || domainChar c) ||
        (!isSpace c && c != ':' && c != '=')) (by decide)
        (hc.elim localChar_ascii domainChar_ascii)
    rcases hc with hc | hc
    · simpa [hc, and_assoc] using hall
    · simpa [hc, and_assoc] using hall
  rcases Nat.lt_trichotomy q t with hlt | rfl | hlt
  · exact (h.user q hi hlt).mono fun c hc => out (.inl hc)
  · refine h.sign.mono fun c hc => ?_
    subst hc
    decide
  · exact (h.domain q hlt hj).mono fun c hc => out (.inr hc)

/-- What a bearer credential would not take of an address is no word character. -/
theorem isWord_of_not_bearerChar {c : Char} (h : bearerChar c = false)
    (hc : localChar c = true) : u.isWord c = false := by
  have hascii := localChar_ascii hc
  have hall : (!(localChar c && !bearerChar c) || !asciiWord c) = true :=
    ascii_induction (p := fun c => !(localChar c && !bearerChar c) || !asciiWord c)
      (by decide) hascii
  rw [u.isWord_ascii hascii]
  simpa [h, hc] using hall

/-- No word character stands before a bearer credential. -/
theorem BearerPlaces.wordBefore_eq (hb : BearerPlaces u.isWord text a g b) :
    wordBefore u.isWord false (text.take a) = false := by
  obtain ⟨c, hc, hne⟩ := hb.boundary
  have hbear : anyCase "bear" c = true := anyCase_mono (by decide) (hb.first.of_getElem? hc)
  have hword := isWord_of_anyCase u hbear
  rw [hword] at hne
  simpa using hne

end Beside

end AgenticDelivery.Api
