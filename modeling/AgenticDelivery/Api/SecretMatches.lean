import Mathlib.Data.Bool.AllAny
import AgenticDelivery.Api.SensitiveValues
import AgenticDelivery.Data.Masking

/-! # What the patterns of sensitive values find

Each of the three patterns finds the longest match at a place. A key is spelled in
one way, so a place has one lead; an address has one `@`, and its domain is as long
as it can be. -/
namespace AgenticDelivery.Api
open AgenticDelivery.Data
open Regex (wordBefore wordAfter)

variable {word : Char → Bool} {before after : Bool} {m : List Char}

/-! ## Spelled keys -/

/-- The text reads as the name, in whatever case. -/
def Spelled (name key : List Char) : Prop :=
  List.Forall₂ (fun c d => ignoreCase c d = true) name key

/-- The names that `secretKeys` takes. -/
def secretNames : List (List Char) :=
  ["api_key", "api-key", "apikey", "password", "secret", "token"].map String.toList

/-- A character reads as one character of ASCII only. -/
theorem ignoreCase_unique {c c' d : Char} (hc : c.toNat < 128) (hc' : c'.toNat < 128)
    (h : ignoreCase c d = true) (h' : ignoreCase c' d = true) : c = c' := by
  have hlow {c : Char} (hc : c.toNat < 128) (hd : d.toLower = c) : d.toNat < 128 := by
    rcases toLower_cases d with hsame | hcase
    · rw [← hsame, hd]
      exact hc
    · omega
  unfold ignoreCase at h h'
  simp only [Bool.or_eq_true, Bool.and_eq_true, beq_iff_eq] at h h'
  rcases h with ((h | ⟨rfl, h⟩) | ⟨rfl, h⟩) | ⟨rfl, h⟩
  · have hascii := hlow hc h
    rcases h' with ((h' | ⟨rfl, h'⟩) | ⟨rfl, h'⟩) | ⟨rfl, h'⟩
    · rw [← h, h']
    all_goals omega
  all_goals
    rcases h' with ((h' | ⟨rfl, h'⟩) | ⟨rfl, h'⟩) | ⟨rfl, h'⟩
    · have hascii := hlow hc' h'
      omega
    all_goals first
      | rfl
      | omega

theorem spelled_letters {text : String} :
    List.Forall₂ (fun p c => p c = true) (letters text) m ↔ Spelled text.toList m := by
  rw [letters, List.forall₂_map_left_iff]
  rfl

theorem spelled_append {front back : List Char} : Spelled (front ++ back) m ↔
    ∃ m₁ m₂, m = m₁ ++ m₂ ∧ Spelled front m₁ ∧ Spelled back m₂ := by
  have h := @forall₂_append m (front.map ignoreCase) (back.map ignoreCase)
  simp only [← List.map_append, List.forall₂_map_left_iff] at h
  exact h

/-- A key is spelled as one of the names. -/
structure Named (phrases : List (List (Char → Bool))) (names : List (List Char)) : Prop where
  spelled : ∀ {ps m}, ps ∈ phrases → List.Forall₂ (fun p c => p c = true) ps m →
    ∃ name ∈ names, Spelled name m
  ascii : ∀ name ∈ names, ∀ c ∈ name, c.toNat < 128
  apart : ∀ name ∈ names, ∀ name' ∈ names, name <+: name' → name = name'

theorem ascii_of_all {names : List (List Char)}
    (h : ∀ name ∈ names, name.all (fun c => c.toNat < 128) = true) :
    ∀ name ∈ names, ∀ c ∈ name, c.toNat < 128 := fun name hname =>
  List.all_iff_forall_prop.mp (h name hname)

theorem named_bearer : Named [letters "bearer"] ["bearer".toList] where
  spelled hps hm := by
    rw [List.mem_singleton.mp hps, spelled_letters] at hm
    exact ⟨_, List.mem_singleton_self _, hm⟩
  ascii := ascii_of_all (by decide)
  apart := by decide

theorem named_secretLetters : Named secretLetters secretNames where
  spelled {ps m} hps hm := by
    simp only [secretLetters, List.mem_cons, List.not_mem_nil, or_false] at hps
    rcases hps with rfl | rfl | rfl | rfl | rfl
    · obtain ⟨m₁, m₂, rfl, h₁, h₂⟩ := forall₂_append.mp hm
      cases h₂ with
      | @cons _ c _ m₃ hc h₃ =>
        rw [spelled_letters] at h₁ h₃
        obtain ⟨sign, hsign, hc⟩ := List.any_eq_true.mp hc
        refine ⟨"api".toList ++ ([sign] ++ "key".toList), ?_, spelled_append.mpr
          ⟨m₁, c :: m₃, rfl, h₁, .cons hc h₃⟩⟩
        have hall : ∀ sign ∈ "_-".toList,
            "api".toList ++ ([sign] ++ "key".toList) ∈ secretNames :=
          List.all_iff_forall_prop.mp (by decide)
        exact hall sign hsign
    · obtain ⟨m₁, m₂, rfl, h₁, h₂⟩ := forall₂_append.mp hm
      rw [spelled_letters] at h₁ h₂
      exact ⟨"apikey".toList, by decide, spelled_append.mpr ⟨m₁, m₂, rfl, h₁, h₂⟩⟩
    · exact ⟨"password".toList, by decide, spelled_letters.mp hm⟩
    · exact ⟨"secret".toList, by decide, spelled_letters.mp hm⟩
    · exact ⟨"token".toList, by decide, spelled_letters.mp hm⟩
  ascii := ascii_of_all (by decide)
  apart := by decide

section Named
variable {phrases : List (List (Char → Bool))} {names : List (List Char)}
  (hn : Named phrases names)
include hn

/-- Of two keys at a place, one is not longer. -/
theorem Named.same_key {b b' : Bool} {key key' rest rest' : List Char}
    (hk : IsKey word phrases b key) (hk' : IsKey word phrases b' key')
    (heq : key ++ rest = key' ++ rest') : key = key' := by
  obtain ⟨-, ps, hps, hm⟩ := hk
  obtain ⟨-, ps', hps', hm'⟩ := hk'
  obtain ⟨name, hname, hs⟩ := hn.spelled hps hm
  obtain ⟨name', hname', hs'⟩ := hn.spelled hps' hm'
  clear hm hm'
  -- the shorter name is the front of the other one
  have front {x y : List Char} {l l' : List Char} (hx : x ∈ names) (hy : y ∈ names)
      (hl : Spelled x l) (hl' : Spelled y l') (hp : l <+: l') : l = l' := by
    have hxy : x <+: y := by
      obtain ⟨tail, rfl⟩ := hp
      have hascii := hn.ascii x hx
      have hascii' := hn.ascii y hy
      clear hx hy hn
      induction hl generalizing y with
      | nil => exact List.nil_prefix
      | @cons c d x l hc _ ih =>
        cases hl' with
        | cons hc' hl' =>
          obtain ⟨hcd, hx⟩ := List.forall_mem_cons.mp hascii
          obtain ⟨hcd', hy⟩ := List.forall_mem_cons.mp hascii'
          rw [ignoreCase_unique hcd hcd' hc hc']
          exact List.cons_prefix_cons.mpr ⟨rfl, ih hl' hx hy⟩
    have hlen := hl.length_eq
    rw [hn.apart x hx y hy hxy, hl'.length_eq] at hlen
    exact (hp.eq_of_length hlen.symm)
  rcases List.prefix_or_prefix_of_prefix ⟨rest, rfl⟩ ⟨rest', heq.symm⟩ with h | h
  · exact front hname hname' hs hs' h
  · exact (front hname' hname hs' hs h).symm

end Named

/-! ## Leads -/

/-- A run is cut from what stands behind it in one way. -/
theorem run_unique {p : Char → Bool} {run run' rest rest' : List Char} {c c' : Char}
    (hrun : ∀ d ∈ run, p d = true) (hrun' : ∀ d ∈ run', p d = true) (hc : p c = false)
    (hc' : p c' = false) (heq : run ++ c :: rest = run' ++ c' :: rest') :
    run = run' ∧ c = c' ∧ rest = rest' := by
  have hsame : run = run' := by
    have hcut : (run ++ c :: rest).takeWhile p = run := takeWhile_run hrun (by simpa using hc)
    rw [← hcut, heq, takeWhile_run hrun' (by simpa using hc')]
  subst hsame
  exact ⟨rfl, List.cons.inj (List.append_cancel_left heq)⟩

theorem isSpace_of_bearerChar {c : Char} (h : bearerChar c = true) : isSpace c = false := by
  obtain ⟨letter, hl, hc⟩ := List.any_eq_true.mp h
  rw [isSpace_of_ignoreCase hc]
  have hall : "abcdefghijklmnopqrstuvwxyz0123456789._-".toList.all
      (fun c => !isSpace c) = true := by decide
  simpa using List.all_eq_true.mp hall letter hl

theorem isSpace_of_sign {c : Char} (h : c = ':' ∨ c = '=') : isSpace c = false := by
  rcases h with rfl | rfl
  · decide
  · decide

theorem ledBy_bearerPattern : bearerPattern.LedBy word (BearerLead word) bearerChar where
  matches_iff {b m after} := by
    unfold bearerPattern BearerLead
    constructor
    · intro ⟨key, _, hm, hkey, gap, _, hm₁, ⟨hlen, hgap⟩, run, _, hm₂, ⟨hlen', hrun⟩, hnil⟩
      subst hnil hm₂ hm₁ hm
      refine ⟨key ++ gap, run, by simp, ⟨key, gap, rfl, keyword_bearer.matches_key.mp hkey,
        List.ne_nil_of_length_pos hlen, hgap⟩, List.ne_nil_of_length_pos hlen', hrun⟩
    · intro ⟨_, run, hm, ⟨key, gap, hfront, hkey, hne, hgap⟩, hne', hrun⟩
      subst hfront hm
      exact ⟨key, gap ++ run, by simp, keyword_bearer.matches_key.mpr hkey, gap, run, rfl,
        ⟨List.length_pos_of_ne_nil hne, hgap⟩, run, [], by simp,
        ⟨List.length_pos_of_ne_nil hne', hrun⟩, rfl⟩
  takes := finds_bearerPattern
  unique {b front front' c c' rest rest'} hl hl' hc hc' heq := by
    obtain ⟨key, gap, rfl, hkey, -, hgap⟩ := hl
    obtain ⟨key', gap', rfl, hkey', -, hgap'⟩ := hl'
    rw [List.append_assoc, List.append_assoc] at heq
    obtain rfl := named_bearer.same_key hkey hkey' heq
    obtain ⟨rfl, -⟩ := run_unique hgap hgap' (isSpace_of_bearerChar hc) (isSpace_of_bearerChar hc')
      (List.append_cancel_left heq)
    rfl

theorem ledBy_assignmentPattern :
    assignmentPattern.LedBy word (AssignmentLead word) fun c => !isSpace c where
  matches_iff {b m after} := by
    unfold assignmentPattern AssignmentLead
    constructor
    · intro ⟨key, _, hm, hkey, gap, _, hm₁, ⟨_, hgap⟩, _, _, hm₂, ⟨sign, hm₃, hsign⟩, gap', _, hm₄,
        ⟨_, hgap'⟩, run, _, hm₅, ⟨hlen, hrun⟩, hnil⟩
      subst hnil hm₅ hm₄ hm₃ hm₂ hm₁ hm
      exact ⟨key ++ (gap ++ sign :: gap'), run, by simp, ⟨key, gap, sign, gap', rfl,
        keyword_secretKeys.matches_key.mp hkey, hgap, by simpa using hsign, hgap'⟩,
        List.ne_nil_of_length_pos hlen, hrun⟩
    · intro ⟨_, run, hm, ⟨key, gap, sign, gap', hfront, hkey, hgap, hsign, hgap'⟩, hne, hrun⟩
      subst hfront hm
      exact ⟨key, gap ++ sign :: (gap' ++ run), by simp,
        keyword_secretKeys.matches_key.mpr hkey, gap, sign :: (gap' ++ run), rfl,
        ⟨Nat.zero_le _, hgap⟩, [sign], gap' ++ run, rfl, ⟨sign, rfl, by simpa using hsign⟩,
        gap', run, rfl, ⟨Nat.zero_le _, hgap'⟩, run, [], by simp,
        ⟨List.length_pos_of_ne_nil hne, hrun⟩, rfl⟩
  takes {b m rest} hf c hc := by simp [finds_assignmentPattern hf c hc]
  unique {b front front' c c' rest rest'} hl hl' hc hc' heq := by
    obtain ⟨key, gap, sign, tail, rfl, hkey, hgap, hsign, htail⟩ := hl
    obtain ⟨key', gap', sign', tail', rfl, hkey', hgap', hsign', htail'⟩ := hl'
    simp only [List.append_assoc, List.cons_append] at heq
    obtain rfl := named_secretLetters.same_key hkey hkey' heq
    obtain ⟨rfl, rfl, hback⟩ := run_unique hgap hgap' (isSpace_of_sign hsign)
      (isSpace_of_sign hsign') (List.append_cancel_left heq)
    obtain ⟨rfl, -⟩ := run_unique htail htail' (by simpa using hc) (by simpa using hc') hback
    rfl

/-! ## Addresses -/

/-- An address is found with the longest domain, and this with the longest end. -/
theorem longest_emailPattern : emailPattern.Longest word := by
  intro b m rest m' rest' hf heq hm'
  have hfirst := hf.2
  unfold emailPattern at hfirst
  obtain ⟨_, t₁, ht, ⟨rfl, -⟩, h₁⟩ := Parts.head?_ends_cons hfirst
  obtain ⟨user, t₂, rfl, ⟨-, huser⟩, h₂⟩ := Parts.head?_ends_cons h₁
  obtain ⟨_, t₃, rfl, ⟨c, rfl, hc⟩, h₃⟩ := Parts.head?_ends_cons h₂
  obtain ⟨domain, t₄, rfl, -, h₄, hdomain⟩ := Parts.head?_ends_run_cons h₃
  obtain ⟨_, t₅, rfl, ⟨d, rfl, hd⟩, h₅⟩ := Parts.head?_ends_cons h₄
  obtain ⟨top, t₆, rfl, -, h₆, htop⟩ := Parts.head?_ends_run_cons h₅
  obtain ⟨_, t₇, rfl, ⟨rfl, -⟩, h₇⟩ := Parts.head?_ends_cons h₆
  obtain rfl : c = '@' := by simpa using hc
  obtain rfl : d = '.' := by simpa using hd
  obtain ⟨-, rfl⟩ : wordBefore word (word '.') top = wordBefore word b m ∧ t₇ = rest := by
    simpa [Parts.ends] using h₇
  have hlen : m.length = user.length + 1 + domain.length + 1 + top.length := by
    have := congrArg List.length ht
    simp only [List.length_append, List.length_cons, List.length_nil] at this
    omega
  rw [heq] at ht
  obtain ⟨-, ⟨user', domain', top', rfl, ⟨-, huser'⟩, ⟨hpos, hdomain'⟩, hpos', htop'⟩, hend⟩ :=
    matches_emailPattern.mp hm'
  have hat : localChar '@' = false := by decide
  obtain ⟨rfl, -, hback⟩ := run_unique (p := localChar) huser' huser hat hat (by simpa using ht)
  have hend' : wordBefore word (word '.') top' ≠ wordAfter word false rest' := by
    simpa using hend
  have hlast : Parts.Starts word [.run 2 Char.isAlpha, .one .boundary] (word '.')
      (top' ++ rest') := by
    refine ⟨top', rest', rfl, top', [], by simp, ⟨hpos', htop'⟩, [], [], rfl, ⟨rfl, ?_⟩, rfl⟩
    simpa using hend'
  have hdot : ('.').isAlpha = false := by decide
  have hle := hdomain domain' ('.' :: (top' ++ rest')) (by simpa using hback.symm) hpos hdomain' (by
    refine Parts.starts_cons.mpr ⟨['.'], top' ++ rest', rfl, ⟨'.', rfl, rfl⟩, hlast⟩)
  have hcut : domain' ++ '.' :: (top' ++ rest') = domain ++ '.' :: (top ++ t₇) := by
    simpa using hback
  suffices htotal : domain'.length + top'.length ≤ domain.length + top.length by
    simp only [List.length_append, List.length_cons]
    omega
  by_cases hsame : domain'.length = domain.length
  · -- the domains are the same
    obtain ⟨rfl, htail⟩ := List.append_inj hcut hsame
    have := htop top' rest' (List.cons.inj htail).2.symm hpos' htop' (by
      refine Parts.starts_cons.mpr ⟨[], rest', rfl, ⟨rfl, by simpa using hend'⟩, Parts.starts_nil⟩)
    omega
  · -- the end of the shorter one stops in the longer one
    obtain ⟨x, rfl⟩ : domain' ++ ['.'] <+: domain := by
      have hlong : domain <+: domain ++ '.' :: (top ++ t₇) := List.prefix_append _ _
      refine List.prefix_of_prefix_length_le ?_ hlong (by simp; omega)
      rw [← hcut]
      exact ⟨top' ++ rest', by simp⟩
    have hx : top' ++ rest' = x ++ '.' :: (top ++ t₇) := by simpa using hcut
    have hprefix : top' <+: x := by
      rcases List.append_eq_append_iff.mp hx with ⟨y, rfl, -⟩ | ⟨y, hy, hrest⟩
      · exact List.prefix_append _ _
      · cases y with
        | nil => simp [hy]
        | cons d y =>
          obtain ⟨rfl, -⟩ := List.cons.inj hrest
          have := htop' '.' (by rw [hy]; simp)
          rw [hdot] at this
          cases this
    have := hprefix.length_le
    simp only [List.length_append, List.length_cons, List.length_nil]
    omega

/-! ## What the patterns see of replacements -/

section Blind
variable (u : Unicode)

theorem bare_of_ledByKey {r : Regex Char} {phrases : List (List (Char → Bool))}
    {lead : Bool → List Char → Prop} (hl : LedByKey word phrases lead) (hk : Keyword r phrases)
    {front : List Char} (h : lead before front) : front ≠ [] ∧ '[' ∉ front := by
  obtain ⟨key, tail, rfl, hkey, htail⟩ := hl _ _ h
  obtain ⟨c, rest, rfl, -⟩ := hk.cons hkey
  refine ⟨List.cons_ne_nil _ _, ?_⟩
  rw [List.mem_append, not_or]
  exact ⟨hk.not_mem hkey, htail⟩

theorem isWord_bracket : u.isWord '[' = false := u.isWord_outside (by decide)

theorem blind_bearerPattern : Blind u.isWord '[' redacted.toList bearerPattern := by
  refine blind_of_bare head?_redacted
    (@shielded_bearerPattern _ (fun _ _ _ => False) nofun).inside
    solid_bearerPattern ledBy_bearerPattern.longest (isWord_bracket u) ?_
  intro b m after hm
  obtain ⟨front, run, rfl, hl, -, hrun⟩ := ledBy_bearerPattern.matches_iff.mp hm
  rw [List.mem_append, not_or]
  refine ⟨(bare_of_ledByKey ledByKey_bearerLead keyword_bearer hl).2, fun hmem => ?_⟩
  have hno : bearerChar '[' = false := by decide
  rw [hrun _ hmem] at hno
  cases hno

theorem blind_assignmentPattern : Blind u.isWord '[' redacted.toList assignmentPattern := by
  refine ledBy_assignmentPattern.blind head?_redacted
    (@shielded_assignmentPattern _ (fun _ _ _ => False) nofun nofun).inside
    solid_assignmentPattern ?_ (by decide) (List.all_eq_true.mp (by decide))
    (bare_of_ledByKey ledByKey_assignmentLead keyword_secretKeys)
  intro b
  rw [wordBefore_redacted, isWord_bracket]

theorem blind_emailPattern : Blind u.isWord '[' redacted.toList emailPattern := by
  refine blind_of_bare head?_redacted (shielded_emailPattern u).inside solid_emailPattern
    longest_emailPattern (isWord_bracket u) ?_
  intro b m after hm
  exact (matches_emailPattern.mp hm).2.1.not_mem

end Blind

end AgenticDelivery.Api
