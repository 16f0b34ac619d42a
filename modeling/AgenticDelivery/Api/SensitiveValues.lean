import AgenticDelivery.Data.Layout
import AgenticDelivery.Data.Scan

/-! # Sensitive values in a text

`SENSITIVE_VALUES` of `operational.py`: the matches of three patterns are replaced in
a text, one pattern after the other. A replacement takes away matches and makes no
new one, neither within it nor at its seams, so no pattern matches what is left. -/
namespace AgenticDelivery.Api
open AgenticDelivery.Data
open Regex (wordBefore wordAfter)

/-- `REDACTED` -/
def redacted : String := "[REDACTED]"

/-! ## The patterns -/

/-- A class of lower-case characters, digits and signs, under `re.IGNORECASE`. -/
def anyCase (chars : String) (d : Char) : Bool := chars.toList.any fun c => ignoreCase c d

/-- `[a-z0-9._-]`, under `re.IGNORECASE` -/
def bearerChar (d : Char) : Bool := anyCase "abcdefghijklmnopqrstuvwxyz0123456789._-" d

/-- `(?i)\bbearer\s+[a-z0-9._-]+` -/
def bearerPattern : Parts Char :=
  [.one (.seq .boundary (phrase "bearer")), .run 1 isSpace, .run 1 bearerChar]

/-- `api[_-]?key|password|secret|token` -/
def secretKeys : Regex Char :=
  .oneOf [.seq (phrase "api") (.seq (.alt (.char (anyCase "_-")) .empty) (phrase "key")),
    phrase "password", phrase "secret", phrase "token"]

/-- `(?i)\b(?:api[_-]?key|password|secret|token)\s*[:=]\s*\S+` -/
def assignmentPattern : Parts Char :=
  [.one (.seq .boundary secretKeys), .run 0 isSpace, .one (.char fun c => c == ':' || c == '='),
    .run 0 isSpace, .run 1 fun c => !isSpace c]

/-- `[A-Za-z0-9._%+-]` -/
def localChar (c : Char) : Bool := c.isAlphanum || "._%+-".toList.contains c

/-- `[A-Za-z0-9.-]` -/
def domainChar (c : Char) : Bool := c.isAlphanum || ".-".toList.contains c

/-- `\b[A-Za-z0-9._%+-]+@[A-Za-z0-9.-]+\.[A-Za-z]{2,}\b` -/
def emailPattern : Parts Char :=
  [.one .boundary, .run 1 localChar, .one (.char fun c => c == '@'), .run 1 domainChar,
    .one (.char fun c => c == '.'), .run 2 Char.isAlpha, .one .boundary]

/-- `SENSITIVE_VALUES` -/
def sensitiveValues : List (Parts Char) := [bearerPattern, assignmentPattern, emailPattern]

/-! ## The redaction -/

variable (u : Unicode)

/-- The loop over `SENSITIVE_VALUES`. -/
def redactText (text : String) : String :=
  String.ofList (sensitiveValues.foldl
    (fun text pattern => substitute u.isWord pattern redacted.toList text) text.toList)

/-! ## Keywords -/

variable {word : Char → Bool} {before after : Bool} {m : List Char}

/-- The phrases of `secretKeys`. -/
def secretLetters : List (List (Char → Bool)) :=
  [letters "api" ++ anyCase "_-" :: letters "key", letters "api" ++ letters "key",
    letters "password", letters "secret", letters "token"]

theorem matches_phrase {text : String} : (phrase text).Matches word before m after ↔
    List.Forall₂ (fun p c => p c = true) (letters text) m :=
  Regex.matches_literal

theorem forall₂_append {ps qs : List (Char → Bool)} :
    List.Forall₂ (fun p c => p c = true) (ps ++ qs) m ↔ ∃ m₁ m₂, m = m₁ ++ m₂ ∧
      List.Forall₂ (fun p c => p c = true) ps m₁ ∧ List.Forall₂ (fun p c => p c = true) qs m₂ := by
  induction ps generalizing m with
  | nil => simp
  | cons p ps ih =>
    rw [List.cons_append, List.forall₂_cons_left_iff]
    constructor
    · intro ⟨c, rest, hc, hrest, hm⟩
      obtain ⟨m₁, m₂, rfl, h₁, h₂⟩ := ih.mp hrest
      exact ⟨c :: m₁, m₂, hm, .cons hc h₁, h₂⟩
    · intro ⟨m₁, m₂, hm, h₁, h₂⟩
      cases h₁ with
      | cons hc h₁ => exact ⟨_, _, hc, ih.mpr ⟨_, _, rfl, h₁, h₂⟩, hm⟩

theorem matches_secretKeys : secretKeys.Matches word before m after ↔
    ∃ ps ∈ secretLetters, List.Forall₂ (fun p c => p c = true) ps m := by
  have hapi : (Regex.seq (phrase "api") (.seq (.alt (.char (anyCase "_-")) .empty)
      (phrase "key"))).Matches word before m after ↔
      List.Forall₂ (fun p c => p c = true) (letters "api" ++ anyCase "_-" :: letters "key") m ∨
        List.Forall₂ (fun p c => p c = true) (letters "api" ++ letters "key") m := by
    rw [forall₂_append, forall₂_append]
    constructor
    · intro ⟨m₁, _, hm, h₁, m₂, m₃, hm', h₂, h₃⟩
      subst hm hm'
      rw [matches_phrase] at h₁ h₃
      rcases h₂ with ⟨c, rfl, hc⟩ | rfl
      · exact .inl ⟨m₁, c :: m₃, rfl, h₁, .cons hc h₃⟩
      · exact .inr ⟨m₁, m₃, rfl, h₁, h₃⟩
    · intro h
      rcases h with ⟨m₁, _, rfl, h₁, h₂⟩ | ⟨m₁, m₃, rfl, h₁, h₃⟩
      · cases h₂ with
        | @cons _ c _ m₃ hc h₃ =>
          exact ⟨m₁, c :: m₃, rfl, matches_phrase.mpr h₁, [c], m₃, rfl, .inl ⟨c, rfl, hc⟩,
            matches_phrase.mpr h₃⟩
      · exact ⟨m₁, m₃, rfl, matches_phrase.mpr h₁, [], m₃, rfl, .inr rfl, matches_phrase.mpr h₃⟩
  unfold secretKeys secretLetters
  rw [Regex.matches_oneOf]
  simp only [List.exists_mem_cons_iff, List.not_mem_nil, false_and, exists_false, or_false, hapi,
    matches_phrase, or_assoc]

/-- The phrases of a keyword: each begins with a letter, and none can reach a replacement. -/
structure Keyword (r : Regex Char) (phrases : List (List (Char → Bool))) : Prop where
  matches_iff : ∀ {word before m after}, r.Matches word before m after ↔
    ∃ ps ∈ phrases, List.Forall₂ (fun p c => p c = true) ps m
  head : ∀ ps ∈ phrases, ∃ letter qs, ps = ignoreCase letter :: qs ∧ isSpace letter = false
  outside : ∀ ps ∈ phrases, ∀ p ∈ ps, p '[' = false
  apart : ∀ ps ∈ phrases, ∀ r ∈ redacted.toList.tails, r ≠ [] → Regex.agree ps r = false

theorem keyword_bearer : Keyword (phrase "bearer") [letters "bearer"] where
  matches_iff := by
    intro word before m after
    rw [matches_phrase]
    simp
  head ps hps := by
    cases List.mem_singleton.mp hps
    exact ⟨'b', letters "earer", rfl, by decide⟩
  outside := by decide
  apart := by decide

theorem keyword_secretKeys : Keyword secretKeys secretLetters where
  matches_iff := matches_secretKeys
  head ps hps := by
    simp only [secretLetters, List.mem_cons, List.not_mem_nil, or_false] at hps
    rcases hps with rfl | rfl | rfl | rfl | rfl
    · exact ⟨'a', letters "pi" ++ anyCase "_-" :: letters "key", rfl, by decide⟩
    · exact ⟨'a', letters "pi" ++ letters "key", rfl, by decide⟩
    · exact ⟨'p', letters "assword", rfl, by decide⟩
    · exact ⟨'s', letters "ecret", rfl, by decide⟩
    · exact ⟨'t', letters "oken", rfl, by decide⟩
  outside := by decide
  apart := by decide

/-- `\b` and one of the phrases -/
def IsKey (word : Char → Bool) (phrases : List (List (Char → Bool))) (before : Bool)
    (key : List Char) : Prop :=
  before ≠ wordAfter word false key ∧ ∃ ps ∈ phrases, List.Forall₂ (fun p c => p c = true) ps key

namespace Keyword
variable {r : Regex Char} {phrases : List (List (Char → Bool))} (hk : Keyword r phrases)
  {key : List Char}
include hk

/-- A key begins with a character that is not white space, on another side of a word
boundary. -/
theorem cons (h : IsKey word phrases before key) :
    ∃ c rest, key = c :: rest ∧ before ≠ word c ∧ isSpace c = false := by
  obtain ⟨hb, ps, hps, hm⟩ := h
  obtain ⟨letter, qs, rfl, hl⟩ := hk.head ps hps
  cases hm with
  | @cons _ c _ rest hc _ =>
    exact ⟨c, rest, rfl, hb, by rw [isSpace_of_ignoreCase hc, hl]⟩

theorem not_mem (h : IsKey word phrases before key) : '[' ∉ key := by
  obtain ⟨-, ps, hps, hm⟩ := h
  have hout := hk.outside ps hps
  clear hps
  induction hm with
  | nil => exact List.not_mem_nil
  | @cons p c ps key hc _ ih =>
    obtain ⟨hp, hout⟩ := List.forall_mem_cons.mp hout
    rw [List.mem_cons, not_or]
    refine ⟨?_, ih hout⟩
    rintro rfl
    rw [hp] at hc
    cases hc

theorem ne_replacement (h : IsKey word phrases before key) {r tail rest : List Char}
    (hr : r ≠ []) (hs : r <:+ redacted.toList) : r ++ tail ≠ key ++ rest := by
  intro heq
  obtain ⟨-, ps, hps, hm⟩ := h
  have hagree := Regex.agree_of_append hm heq
  rw [hk.apart ps hps r ((List.mem_tails _ _).mpr hs) hr] at hagree
  cases hagree

theorem matches_key {key : List Char} :
    (Part.one (.seq .boundary r)).Matches word before key after ↔
      IsKey word phrases before key := by
  unfold IsKey
  constructor
  · intro ⟨_, _, hm, ⟨rfl, hb⟩, hr⟩
    obtain ⟨ps, hps, hmatch⟩ := hk.matches_iff.mp hr
    obtain ⟨letter, qs, rfl, -⟩ := hk.head ps hps
    rw [List.nil_append] at hm
    subst hm
    refine ⟨?_, _, hps, hmatch⟩
    cases hmatch with
    | cons _ _ => exact hb
  · intro ⟨hb, ps, hps, hmatch⟩
    refine ⟨[], key, rfl, ⟨rfl, ?_⟩, hk.matches_iff.mpr ⟨ps, hps, hmatch⟩⟩
    obtain ⟨letter, qs, rfl, -⟩ := hk.head ps hps
    cases hmatch with
    | cons _ _ => exact hb

theorem starts_iff {parts : Parts Char} {text : List Char} :
    Parts.Starts word (.one (.seq .boundary r) :: parts) before text ↔
      ∃ key rest, text = key ++ rest ∧ IsKey word phrases before key ∧
        parts.Starts word (wordBefore word before key) rest := by
  rw [Parts.starts_cons]
  simp only [hk.matches_key]

end Keyword

/-! ## The two patterns with a keyword -/

/-- `\bbearer\s+` -/
def BearerLead (word : Char → Bool) (before : Bool) (front : List Char) : Prop :=
  ∃ key gap, front = key ++ gap ∧ IsKey word [letters "bearer"] before key ∧
    gap ≠ [] ∧ ∀ c ∈ gap, isSpace c = true

/-- `\b(?:api[_-]?key|password|secret|token)\s*[:=]\s*` -/
def AssignmentLead (word : Char → Bool) (before : Bool) (front : List Char) : Prop :=
  ∃ key gap sign gap', front = key ++ (gap ++ sign :: gap') ∧ IsKey word secretLetters before key ∧
    (∀ c ∈ gap, isSpace c = true) ∧ (sign = ':' ∨ sign = '=') ∧ ∀ c ∈ gap', isSpace c = true

theorem starts_run {parts : Parts Char} {n : Nat} {p : Char → Bool} {text : List Char} :
    Parts.Starts word (.run n p :: parts) before text ↔ ∃ m rest, text = m ++ rest ∧
      (n ≤ m.length ∧ ∀ c ∈ m, p c = true) ∧ parts.Starts word (wordBefore word before m) rest :=
  Parts.starts_cons

theorem starts_char {parts : Parts Char} {p : Char → Bool} {text : List Char} :
    Parts.Starts word (.one (.char p) :: parts) before text ↔ ∃ c rest, text = c :: rest ∧
      p c = true ∧ parts.Starts word (word c) rest := by
  rw [Parts.starts_cons]
  constructor
  · intro ⟨_, rest, ht, ⟨c, hm, hc⟩, hparts⟩
    subst hm
    exact ⟨c, rest, ht, hc, hparts⟩
  · intro ⟨c, rest, ht, hc, hparts⟩
    exact ⟨[c], rest, ht, ⟨c, rfl, hc⟩, hparts⟩

/-- A run at the end needs one character only. -/
theorem starts_last_run {p : Char → Bool} {text : List Char} :
    Parts.Starts word [.run 1 p] before text ↔ ∃ c rest, text = c :: rest ∧ p c = true := by
  rw [starts_run]
  constructor
  · intro ⟨m, rest, ht, ⟨hlen, hp⟩, _⟩
    obtain ⟨c, m, rfl⟩ := List.exists_cons_of_length_pos hlen
    exact ⟨c, m ++ rest, ht, hp c List.mem_cons_self⟩
  · intro ⟨c, rest, ht, hc⟩
    exact ⟨[c], rest, ht, ⟨Nat.le_refl _, by simpa using hc⟩, Parts.starts_nil⟩

theorem led_bearerPattern : Led (bearerPattern.Starts word) (BearerLead word) bearerChar := by
  intro b text
  unfold bearerPattern BearerLead
  rw [keyword_bearer.starts_iff]
  constructor
  · intro ⟨key, rest, ht, hkey, hrest⟩
    obtain ⟨gap, last, rfl, ⟨hlen, hgap⟩, hlast⟩ := starts_run.mp hrest
    obtain ⟨c, back, rfl, hc⟩ := starts_last_run.mp hlast
    exact ⟨key ++ gap, c, back, by rw [ht, List.append_assoc],
      ⟨key, gap, rfl, hkey, List.ne_nil_of_length_pos hlen, hgap⟩, hc⟩
  · intro ⟨_, c, back, ht, ⟨key, gap, hfront, hkey, hne, hgap⟩, hc⟩
    subst hfront
    refine ⟨key, gap ++ c :: back, by rw [ht, List.append_assoc], hkey, starts_run.mpr ?_⟩
    exact ⟨gap, c :: back, rfl, ⟨List.length_pos_of_ne_nil hne, hgap⟩,
      starts_last_run.mpr ⟨c, back, rfl, hc⟩⟩

theorem led_assignmentPattern :
    Led (assignmentPattern.Starts word) (AssignmentLead word) fun c => !isSpace c := by
  intro b text
  unfold assignmentPattern AssignmentLead
  rw [keyword_secretKeys.starts_iff]
  constructor
  · intro ⟨key, rest, ht, hkey, hrest⟩
    obtain ⟨gap, rest₂, rfl, ⟨_, hgap⟩, hrest₂⟩ := starts_run.mp hrest
    obtain ⟨sign, rest₃, rfl, hsign, hrest₃⟩ := starts_char.mp hrest₂
    obtain ⟨gap', last, rfl, ⟨_, hgap'⟩, hlast⟩ := starts_run.mp hrest₃
    obtain ⟨c, back, rfl, hc⟩ := starts_last_run.mp hlast
    refine ⟨key ++ (gap ++ sign :: gap'), c, back, by simp [ht],
      ⟨key, gap, sign, gap', rfl, hkey, hgap, by simpa using hsign, hgap'⟩, hc⟩
  · intro ⟨_, c, back, ht, ⟨key, gap, sign, gap', hfront, hkey, hgap, hsign, hgap'⟩, hc⟩
    subst hfront
    refine ⟨key, gap ++ sign :: (gap' ++ c :: back), by simp [ht], hkey, starts_run.mpr ?_⟩
    refine ⟨gap, _, rfl, ⟨Nat.zero_le _, hgap⟩, starts_char.mpr ⟨sign, _, rfl, by simpa using hsign,
      starts_run.mpr ⟨gap', _, rfl, ⟨Nat.zero_le _, hgap'⟩, starts_last_run.mpr ?_⟩⟩⟩
    exact ⟨c, back, rfl, hc⟩

theorem head?_redacted : redacted.toList.head? = some '[' := rfl

/-- A lead is a key with no bracket behind it. -/
def LedByKey (word : Char → Bool) (phrases : List (List (Char → Bool)))
    (lead : Bool → List Char → Prop) : Prop :=
  ∀ b front, lead b front →
    ∃ key tail, front = key ++ tail ∧ IsKey word phrases b key ∧ '[' ∉ tail

theorem bracket_of_isSpace {gap : List Char} (h : ∀ c ∈ gap, isSpace c = true) : '[' ∉ gap := by
  intro hm
  have := h _ hm
  revert this
  decide

theorem ledByKey_bearerLead : LedByKey word [letters "bearer"] (BearerLead word) := by
  intro b front ⟨key, gap, hfront, hkey, _, hgap⟩
  exact ⟨key, gap, hfront, hkey, bracket_of_isSpace hgap⟩

theorem ledByKey_assignmentLead : LedByKey word secretLetters (AssignmentLead word) := by
  intro b front ⟨key, gap, sign, gap', hfront, hkey, hgap, hsign, hgap'⟩
  refine ⟨key, _, hfront, hkey, ?_⟩
  rw [List.mem_append, List.mem_cons, not_or, not_or]
  refine ⟨bracket_of_isSpace hgap, ?_, bracket_of_isSpace hgap'⟩
  rcases hsign with rfl | rfl
  · decide
  · decide

section Leads
variable {r : Regex Char} {phrases : List (List (Char → Bool))} {lead : Bool → List Char → Prop}
  {found : Bool → List Char → List Char → Prop} {Q : Bool → List Char → Prop} {p : Char → Bool}

/-- A lead begins on the other side of a word boundary, and not with white space. -/
theorem LedByKey.first (hl : LedByKey word phrases lead) (hk : Keyword r phrases) {b : Bool}
    {c : Char} {front : List Char} (h : lead b (c :: front)) :
    b ≠ word c ∧ isSpace c = false := by
  obtain ⟨key, tail, heq, hkey, -⟩ := hl _ _ h
  obtain ⟨d, rest, rfl, hb, hs⟩ := hk.cons hkey
  obtain ⟨rfl, -⟩ := List.cons.inj heq
  exact ⟨hb, hs⟩

theorem LedByKey.shielded (hl : LedByKey word phrases lead) (hk : Keyword r phrases)
    (hq : Led Q lead p)
    (hbehind : ∀ b m c rest, found b m (c :: rest) → ∀ front, ¬lead false (c :: front))
    (hfirst : ∀ b m rest, found b m rest → p '[' = true →
      ∃ c back, m = c :: back ∧ p c = true) :
    Shielded word Q found redacted.toList := by
  refine hq.shielded head?_redacted ?_ ?_ hbehind hfirst
  · intro b front h
    obtain ⟨key, tail, rfl, hkey, htail⟩ := hl b front h
    obtain ⟨c, rest, rfl, -⟩ := hk.cons hkey
    refine ⟨List.cons_ne_nil _ _, ?_⟩
    rw [List.mem_append, not_or]
    exact ⟨hk.not_mem hkey, htail⟩
  · intro b front r tail rest h hr hs heq
    obtain ⟨key, gap, rfl, hkey, -⟩ := hl b front h
    rw [List.append_assoc] at heq
    exact hk.ne_replacement hkey hr hs heq

end Leads

/-! ## The e-mail pattern -/

/-- `[A-Za-z0-9._%+-]+@[A-Za-z0-9.-]+\.[A-Za-z]{2,}` -/
def IsAddress (m : List Char) : Prop :=
  ∃ user domain top, m = user ++ '@' :: (domain ++ '.' :: top) ∧
    (1 ≤ user.length ∧ ∀ c ∈ user, localChar c = true) ∧
    (1 ≤ domain.length ∧ ∀ c ∈ domain, domainChar c = true) ∧
    2 ≤ top.length ∧ ∀ c ∈ top, c.isAlpha = true

theorem matches_emailPattern : emailPattern.Matches word before m after ↔
    before ≠ wordAfter word after m ∧ IsAddress m ∧ wordBefore word before m ≠ after := by
  unfold emailPattern IsAddress
  constructor
  · intro ⟨_, _, hm, ⟨h₁, hb⟩, user, _, hm₁, huser, _, _, hm₂, ⟨c, h₂, hc⟩, domain, _, hm₃, hdomain,
      _, _, hm₄, ⟨d, h₃, hd⟩, top, _, hm₅, htop, _, _, hm₆, ⟨h₄, hend⟩, h₅⟩
    obtain rfl : c = '@' := by simpa using hc
    obtain rfl : d = '.' := by simpa using hd
    subst h₁ hm₆ h₄ h₅ hm₅ hm₄ h₃ hm₃ hm₂ h₂ hm₁ hm
    simp only [List.nil_append, List.append_nil, List.cons_append] at hb hend ⊢
    refine ⟨hb, ⟨user, domain, top, rfl, huser, hdomain, htop⟩, ?_⟩
    simpa using hend
  · intro ⟨hb, ⟨user, domain, top, hm, huser, hdomain, htop⟩, hend⟩
    subst hm
    refine ⟨[], _, rfl, ⟨rfl, hb⟩, user, _, rfl, huser, ['@'], _, rfl, ⟨'@', rfl, rfl⟩,
      domain, _, rfl, hdomain, ['.'], _, rfl, ⟨'.', rfl, rfl⟩, top, [], by simp, htop, [], [], rfl,
      ⟨rfl, ?_⟩, rfl⟩
    simpa using hend

theorem starts_emailPattern {text : List Char} : emailPattern.Starts word before text ↔
    before ≠ wordAfter word false text ∧ ∃ m rest, text = m ++ rest ∧ IsAddress m ∧
      wordBefore word before m ≠ wordAfter word false rest := by
  unfold Parts.Starts
  simp only [matches_emailPattern]
  constructor
  · intro ⟨m, rest, ht, hb, hm, hend⟩
    refine ⟨?_, m, rest, ht, hm, hend⟩
    rwa [ht, Regex.wordAfter_append]
  · intro ⟨hb, m, rest, ht, hm, hend⟩
    refine ⟨m, rest, ht, ?_, hm, hend⟩
    rwa [ht, Regex.wordAfter_append] at hb

theorem isSpace_of_isAlphanum {c : Char} (h : c.isAlphanum = true) : isSpace c = false := by
  have hcode := isAlphanum_iff.mp h
  unfold isSpace
  simp
  omega

theorem isSpace_of_localChar {c : Char} (h : localChar c = true) : isSpace c = false := by
  unfold localChar at h
  rw [Bool.or_eq_true] at h
  rcases h with h | h
  · exact isSpace_of_isAlphanum h
  · have hsigns : "._%+-".toList.all (fun c => !isSpace c) = true := by decide
    have hc := List.all_eq_true.mp hsigns c (List.contains_iff_mem.mp h)
    simpa using hc

namespace IsAddress

/-- An address has no bracket. -/
theorem not_mem (h : IsAddress m) : '[' ∉ m := by
  obtain ⟨user, domain, top, rfl, ⟨-, huser⟩, ⟨-, hdomain⟩, -, htop⟩ := h
  have apart (p : Char → Bool) (hp : p '[' = false) {l : List Char} (hl : ∀ c ∈ l, p c = true) :
      '[' ∉ l := by
    intro hm
    rw [hl _ hm] at hp
    cases hp
  simp only [List.mem_append, List.mem_cons, not_or]
  exact ⟨apart localChar (by decide) huser, by decide, apart domainChar (by decide) hdomain,
    by decide, apart Char.isAlpha (by decide) htop⟩

/-- An address begins with a character of its user. -/
theorem cons (h : IsAddress m) : ∃ c back, m = c :: back ∧ localChar c = true := by
  obtain ⟨user, domain, top, rfl, ⟨hlen, huser⟩, -⟩ := h
  obtain ⟨c, user, rfl⟩ := List.exists_cons_of_length_pos hlen
  exact ⟨c, _, rfl, huser c List.mem_cons_self⟩

/-- An address ends with a letter. -/
theorem wordBefore_eq (h : IsAddress m) (b : Bool) : wordBefore u.isWord b m = true := by
  obtain ⟨user, domain, top, rfl, -, -, hlen, htop⟩ := h
  obtain ⟨front, c, rfl⟩ : ∃ front c, top = front ++ [c] := by
    refine ⟨top.dropLast, top.getLast (List.ne_nil_of_length_pos (by omega)), ?_⟩
    rw [List.dropLast_append_getLast]
  have hc : c.isAlphanum = true := by
    show (c.isAlpha || c.isDigit) = true
    rw [htop c (by simp), Bool.true_or]
  have hcode := isAlphanum_iff.mp hc
  have hword : u.isWord c = true := by
    rw [u.isWord_ascii (by omega), asciiWord, hc, Bool.true_or]
  simpa using hword

/-- The part before the `@` of an address cannot begin in a replacement. -/
theorem ne_replacement (h : IsAddress m) {r tail rest : List Char} (hr : r ≠ [])
    (hs : r <:+ redacted.toList) : r ++ tail ≠ m ++ rest := by
  obtain ⟨user, domain, top, rfl, ⟨-, huser⟩, -⟩ := h
  have reach (back : List Char) : ∀ w user : List Char, '@' ∉ w →
      (∀ c ∈ user, localChar c = true) → w ++ ']' :: tail ≠ user ++ '@' :: back := by
    intro w
    induction w with
    | nil =>
      intro user _ huser heq
      cases user with
      | nil => simp at heq
      | cons c user =>
        obtain ⟨rfl, -⟩ := List.cons.inj heq
        have := huser _ List.mem_cons_self
        revert this
        decide
    | cons d w ih =>
      intro user hw huser heq
      obtain ⟨hd, hw⟩ := not_or.mp (List.mem_cons.not.mp hw)
      cases user with
      | nil => exact hd (List.cons.inj heq).1.symm
      | cons c user =>
        exact ih user hw (List.forall_mem_cons.mp huser).2 (List.cons.inj heq).2
  obtain ⟨w, rfl, hw⟩ : ∃ w, r = w ++ [']'] ∧ '@' ∉ w := by
    have hall : ∀ r ∈ redacted.toList.tails, r ≠ [] →
        r = r.dropLast ++ [']'] ∧ '@' ∉ r.dropLast := by decide
    exact ⟨r.dropLast, hall r ((List.mem_tails _ _).mpr hs) hr⟩
  intro heq
  exact reach (domain ++ '.' :: top ++ rest) w user hw huser (by simpa using heq)

end IsAddress

theorem starts_emailPattern_cons {c : Char} {tail : List Char}
    (h : emailPattern.Starts word before (c :: tail)) :
    before ≠ word c ∧ localChar c = true := by
  obtain ⟨hb, m, rest, ht, hm, -⟩ := starts_emailPattern.mp h
  obtain ⟨d, back, rfl, hd⟩ := hm.cons
  obtain ⟨rfl, -⟩ := List.cons.inj ht
  exact ⟨hb, hd⟩

/-! ## What the scans find -/

section Found
variable {rest : List Char}

/-- A bearer credential is taken to its end. -/
theorem finds_bearerPattern (h : bearerPattern.Finds word before m rest) :
    ∀ c ∈ rest.head?, bearerChar c = false := by
  have hrun : (Parts.ends word ([.one (.seq .boundary (phrase "bearer")), .run 1 isSpace] ++
      [.run 1 bearerChar]) before (m ++ rest)).head? = some (wordBefore word before m, rest) := h.2
  exact Parts.head?_ends_run hrun

/-- An assigned value is taken to the next white space. -/
theorem finds_assignmentPattern (h : assignmentPattern.Finds word before m rest) :
    ∀ c ∈ rest.head?, isSpace c = true := by
  have hrun : (Parts.ends word ([.one (.seq .boundary secretKeys), .run 0 isSpace,
      .one (.char fun c => c == ':' || c == '='), .run 0 isSpace] ++ [.run 1 fun c => !isSpace c])
      before (m ++ rest)).head? = some (wordBefore word before m, rest) := h.2
  intro c hc
  simpa using Parts.head?_ends_run hrun c hc

/-- No word character stands behind an address. -/
theorem finds_emailPattern (h : emailPattern.Finds u.isWord before m rest) :
    wordAfter u.isWord false rest = false := by
  obtain ⟨-, hm, hend⟩ := matches_emailPattern.mp h.matches
  rw [hm.wordBefore_eq] at hend
  simpa using hend

theorem finds_assignmentPattern_cons (h : assignmentPattern.Finds word before m rest) :
    ∃ c back, m = c :: back ∧ isSpace c = false := by
  obtain ⟨c, back, rfl⟩ := List.exists_cons_of_ne_nil h.1
  obtain ⟨front, d, tail, ht, hl, -⟩ := (led_assignmentPattern _ _).mp h.starts
  obtain ⟨key, gap, rfl, hkey, -⟩ := ledByKey_assignmentLead _ _ hl
  obtain ⟨e, key, rfl, -, he⟩ := keyword_secretKeys.cons hkey
  obtain ⟨rfl, -⟩ := List.cons.inj ht
  exact ⟨c, back, rfl, he⟩

theorem finds_emailPattern_cons (h : emailPattern.Finds word before m rest) :
    ∃ c back, m = c :: back ∧ isSpace c = false := by
  obtain ⟨-, hm, -⟩ := matches_emailPattern.mp h.matches
  obtain ⟨c, back, rfl, hc⟩ := hm.cons
  exact ⟨c, back, rfl, isSpace_of_localChar hc⟩

end Found

/-! ## No new matches at the seams -/

section Seams
variable {found : Bool → List Char → List Char → Prop}

theorem shielded_bearerPattern (hbehind : ∀ b m c rest, found b m (c :: rest) →
      bearerChar c = false ∨ isSpace c = true ∨ word c = false) :
    Shielded word (bearerPattern.Starts word) found redacted.toList := by
  refine ledByKey_bearerLead.shielded keyword_bearer led_bearerPattern ?_ ?_
  · intro b m c rest hf front hl
    obtain ⟨hb, hs⟩ := ledByKey_bearerLead.first keyword_bearer hl
    rcases hbehind b m c rest hf with h | h | h
    · -- a bearer keyword is itself of the class
      obtain ⟨key, gap, heq, ⟨-, ps, hps, hm⟩, -⟩ := hl
      cases List.mem_singleton.mp hps
      cases hm with
      | cons hc _ =>
        obtain ⟨rfl, -⟩ := List.cons.inj heq
        have hclass : bearerChar c = true := List.any_eq_true.mpr ⟨'b', by decide, hc⟩
        rw [hclass] at h
        cases h
    · rw [hs] at h
      cases h
    · exact hb h.symm
  · intro b m rest _ hbracket
    have hno : bearerChar '[' = false := by decide
    rw [hno] at hbracket
    cases hbracket

theorem shielded_assignmentPattern
    (hbehind : ∀ b m c rest, found b m (c :: rest) → isSpace c = true ∨ word c = false)
    (hfirst : ∀ b m rest, found b m rest → ∃ c back, m = c :: back ∧ isSpace c = false) :
    Shielded word (assignmentPattern.Starts word) found redacted.toList := by
  refine ledByKey_assignmentLead.shielded keyword_secretKeys led_assignmentPattern ?_ ?_
  · intro b m c rest hf front hl
    obtain ⟨hb, hs⟩ := ledByKey_assignmentLead.first keyword_secretKeys hl
    rcases hbehind b m c rest hf with h | h
    · rw [hs] at h
      cases h
    · exact hb h.symm
  · intro b m rest hf _
    obtain ⟨c, back, hm, hc⟩ := hfirst b m rest hf
    exact ⟨c, back, hm, by rw [hc]; rfl⟩

theorem shielded_emailPattern : Shielded u.isWord (emailPattern.Starts u.isWord)
    (emailPattern.Finds u.isWord) redacted.toList where
  solid b h := by
    obtain ⟨-, m, rest, ht, hm, -⟩ := starts_emailPattern.mp h
    obtain ⟨c, back, rfl, -⟩ := hm.cons
    cases ht
  kept {free b c rest pieces} hs h := by
    obtain ⟨hb, m, post, ht, hm, hend⟩ := starts_emailPattern.mp h
    obtain ⟨d, back, rfl, -⟩ := hm.cons
    obtain ⟨rfl, hr⟩ := List.cons.inj ht
    obtain ⟨rest', pieces', rfl, hs', rfl⟩ :=
      hs.front head?_redacted hr fun h => hm.not_mem (List.mem_cons_of_mem _ h)
    refine starts_emailPattern.mpr ⟨hb, c :: back, rest', rfl, hm, ?_⟩
    -- an address that begins behind a letter begins with a sign
    have hletter := hm.wordBefore_eq u b
    rw [hletter] at hend ⊢
    have hlast : wordBefore u.isWord (u.isWord c) back = true := hletter
    rw [hlast] at hs'
    cases hs' with
    | nil => simp
    | kept _ _ => exact hend
    | hit hf _ =>
      have := (starts_emailPattern.mp hf.starts).1
      exact this
  inside b r tail hr hs h := by
    obtain ⟨-, m, rest, ht, hm, -⟩ := starts_emailPattern.mp h
    exact hm.ne_replacement hr hs ht
  behind {b m c rest} hf tail h := by
    have hb := (starts_emailPattern_cons h).1
    have hword := finds_emailPattern u hf
    exact hb hword.symm

end Seams

/-! ## Redacted texts -/

/-- No pattern matches the text. -/
def CleanText (text : List Char) : Prop :=
  ∀ pattern ∈ sensitiveValues, ¬pattern.Occurs u.isWord text

theorem wordBefore_redacted (b : Bool) : wordBefore u.isWord b redacted.toList = false := by
  have hbracket : u.isWord ']' = false := u.isWord_outside (by decide)
  exact hbracket

section Substitute
variable {pattern other : Parts Char} (text : List Char)

/-- After a substitution, the pattern itself occurs no more. -/
theorem substitute_not_occurs (hs : pattern.Solid u.isWord)
    (h : Shielded u.isWord (pattern.Starts u.isWord) (pattern.Finds u.isWord) redacted.toList) :
    ¬pattern.Occurs u.isWord (substitute u.isWord pattern redacted.toList text) :=
  nowhere_starts_iff.mp
    ((scanned_scan hs false text).nowhere h (by decide) (wordBefore_redacted u))

/-- A substitution makes no match of a pattern that did not occur. -/
theorem substitute_not_occurs_of (hs : pattern.Solid u.isWord)
    (h : Shielded u.isWord (other.Starts u.isWord) (pattern.Finds u.isWord) redacted.toList)
    (hother : ¬other.Occurs u.isWord text) :
    ¬other.Occurs u.isWord (substitute u.isWord pattern redacted.toList text) := by
  rw [← nowhere_starts_iff] at hother ⊢
  exact ((scanned_scan hs false text).free_of_nowhere hother).nowhere h (by decide)
    (wordBefore_redacted u)

end Substitute

theorem solid_bearerPattern : bearerPattern.Solid word :=
  Parts.solid_of_mem (n := 0) (p := bearerChar) (by simp [bearerPattern])

theorem solid_assignmentPattern : assignmentPattern.Solid word :=
  Parts.solid_of_mem (n := 0) (p := fun c => !isSpace c) (by simp [assignmentPattern])

theorem solid_emailPattern : emailPattern.Solid word :=
  Parts.solid_of_mem (n := 0) (p := localChar) (by simp [emailPattern])

/-- **What is redacted is clean.** -/
theorem cleanText_redactText (text : String) : CleanText u (redactText u text).toList := by
  unfold redactText sensitiveValues
  simp only [List.foldl_cons, List.foldl_nil, String.toList_ofList]
  generalize text.toList = s
  have hbearer := substitute_not_occurs u s solid_bearerPattern
    (shielded_bearerPattern fun b m c rest hf => .inl (finds_bearerPattern hf c rfl))
  generalize substitute u.isWord bearerPattern redacted.toList s = s₁ at hbearer ⊢
  have hassigned := substitute_not_occurs u s₁ solid_assignmentPattern
    (shielded_assignmentPattern (fun b m c rest hf => .inl (finds_assignmentPattern hf c rfl))
      fun b m rest hf => finds_assignmentPattern_cons hf)
  replace hbearer := substitute_not_occurs_of u s₁ solid_assignmentPattern
    (shielded_bearerPattern fun b m c rest hf => .inr (.inl (finds_assignmentPattern hf c rfl)))
    hbearer
  generalize substitute u.isWord assignmentPattern redacted.toList s₁ = s₂ at hbearer hassigned ⊢
  have hemail := substitute_not_occurs u s₂ solid_emailPattern (shielded_emailPattern u)
  replace hbearer := substitute_not_occurs_of u s₂ solid_emailPattern
    (shielded_bearerPattern fun b m c rest hf => .inr (.inr (finds_emailPattern u hf))) hbearer
  replace hassigned := substitute_not_occurs_of u s₂ solid_emailPattern
    (shielded_assignmentPattern (fun b m c rest hf => .inr (finds_emailPattern u hf))
      fun b m rest hf => finds_emailPattern_cons hf) hassigned
  intro pattern hp
  simp only [sensitiveValues, List.mem_cons, List.not_mem_nil, or_false] at hp
  rcases hp with rfl | rfl | rfl
  · exact hbearer
  · exact hassigned
  · exact hemail

theorem cleanText_redacted : CleanText u redacted.toList := by
  have alone {pattern : Parts Char} {found : Bool → List Char → List Char → Prop}
      (h : Shielded u.isWord (pattern.Starts u.isWord) found redacted.toList) :
      ¬pattern.Occurs u.isWord redacted.toList := by
    rw [← nowhere_starts_iff, ← List.append_nil redacted.toList]
    exact Nowhere.append (fun b r hr hs => h.inside b r [] hr hs) (h.solid _)
  intro pattern hp
  simp only [sensitiveValues, List.mem_cons, List.not_mem_nil, or_false] at hp
  rcases hp with rfl | rfl | rfl
  · exact alone (@shielded_bearerPattern _ (fun _ _ _ => False) nofun)
  · exact alone (@shielded_assignmentPattern _ (fun _ _ _ => False) nofun nofun)
  · exact alone (shielded_emailPattern u)

/-- **A clean text is redacted to itself.** -/
theorem redactText_eq_self {text : String} (h : CleanText u text.toList) :
    redactText u text = text := by
  have hfix : ∀ patterns ⊆ sensitiveValues, patterns.foldl
      (fun text pattern => substitute u.isWord pattern redacted.toList text) text.toList =
        text.toList := by
    intro patterns
    induction patterns with
    | nil => exact fun _ => rfl
    | cons pattern patterns ih =>
      intro hsub
      obtain ⟨hp, hrest⟩ := List.cons_subset.mp hsub
      rw [List.foldl_cons, substitute_eq_self (h pattern hp), ih hrest]
  rw [redactText, hfix _ (List.Subset.refl _), String.ofList_toList]

end AgenticDelivery.Api
