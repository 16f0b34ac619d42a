import AgenticDelivery.Data.Hits

/-! # Masked texts

A masked text keeps its characters and says which of them have been removed. To a
pattern a removed character looks like a mark. Removing the hits of a pattern from
a masked text does to it what substitution does to the text with replacements,
for a pattern that can tell a mark from a replacement in no other way. -/
namespace AgenticDelivery.Data
open Regex (wordBefore wordAfter)

variable {α : Type}

/-- What a pattern sees of a masked text. -/
def view (mark : α) (cells : List (α × Bool)) : List α :=
  cells.map fun cell => if cell.2 then mark else cell.1

/-- For each character of the scanned text, whether it is hit. -/
def mask : List (Piece α) → List Bool
  | [] => []
  | .kept _ :: pieces => false :: mask pieces
  | .hit m :: pieces => List.replicate m.length true ++ mask pieces

/-- The masked text without what `hits` says. -/
def remove (cells : List (α × Bool)) (hits : List Bool) : List (α × Bool) :=
  cells.zipWith (fun cell hit => (cell.1, cell.2 || hit)) hits

/-- The masked text without the hits of a pattern. -/
def removeHits (word : α → Bool) (mark : α) (parts : Parts α) (cells : List (α × Bool)) :
    List (α × Bool) :=
  remove cells (mask (scan word parts 0 false (view mark cells)))

/-- The character at the position has been removed. -/
def Removed (cells : List (α × Bool)) (p : Nat) : Prop := ∃ c, cells[p]? = some (c, true)

/-- Parts of the removed text stand replaced in the other one. -/
inductive Rendered (repl : List α) : List (α × Bool) → List α → Prop
  | nil : Rendered repl [] []
  | kept {c : α} {cells : List (α × Bool)} {text : List α} :
      Rendered repl cells text → Rendered repl ((c, false) :: cells) (c :: text)
  | gone {part cells : List (α × Bool)} {text : List α} : part ≠ [] →
      (∀ cell ∈ part, cell.2 = true) → Rendered repl cells text →
      Rendered repl (part ++ cells) (repl ++ text)

/-! ## What is removed -/

variable {word : α → Bool} {parts : Parts α} {mark : α} {before : Bool} {text : List α}
  {cells : List (α × Bool)} {pieces : List (Piece α)} {hits : List Bool} {repl : List α}

@[simp] theorem length_view : (view mark cells).length = cells.length := List.length_map _

@[simp] theorem view_append (left right : List (α × Bool)) :
    view mark (left ++ right) = view mark left ++ view mark right := List.map_append

theorem length_mask : (mask pieces).length = (source pieces).length := by
  induction pieces with
  | nil => rfl
  | cons piece pieces ih =>
    cases piece with
    | kept c => simp [mask, source, ih]
    | hit m => simp [mask, source, ih]

theorem getElem?_mask {p : Nat} : (mask pieces)[p]? = some true ↔
    ∃ front m back, pieces = front ++ .hit m :: back ∧ (source front).length ≤ p ∧
      p < (source front).length + m.length := by
  induction pieces generalizing p with
  | nil => simp [mask]
  | cons piece pieces ih =>
    cases piece with
    | kept c =>
      constructor
      · intro h
        cases p with
        | zero => simp [mask] at h
        | succ p =>
          obtain ⟨front, m, back, rfl, hle, hlt⟩ := ih.mp h
          refine ⟨.kept c :: front, m, back, rfl, ?_, ?_⟩
          · simp only [source, List.length_cons]
            omega
          · simp only [source, List.length_cons]
            omega
      · intro h
        obtain ⟨front, m, back, hp, hle, hlt⟩ := h
        cases front with
        | nil => cases hp
        | cons piece front =>
          obtain ⟨rfl, hrest⟩ := List.cons.inj hp
          simp only [source, List.length_cons] at hle hlt
          cases p with
          | zero => omega
          | succ p =>
            rw [mask, List.getElem?_cons_succ]
            exact ih.mpr ⟨front, m, back, hrest, by omega, by omega⟩
    | hit m =>
      rw [mask, List.getElem?_append, List.length_replicate]
      by_cases hlt : p < m.length
      · rw [if_pos hlt, List.getElem?_replicate, if_pos hlt]
        simp only [true_iff]
        exact ⟨[], m, pieces, rfl, Nat.zero_le _, by simpa [source] using hlt⟩
      · rw [if_neg hlt, ih]
        constructor
        · intro h
          obtain ⟨front, m', back, hp, hle, hlt'⟩ := h
          refine ⟨.hit m :: front, m', back, by rw [hp]; rfl, ?_, ?_⟩
          · simp only [source, List.length_append]
            omega
          · simp only [source, List.length_append]
            omega
        · intro h
          obtain ⟨front, m', back, hp, hle, hlt'⟩ := h
          cases front with
          | nil =>
            obtain ⟨heq, -⟩ := List.cons.inj hp
            cases heq
            simp only [source, List.length_nil] at hlt'
            omega
          | cons piece front =>
            obtain ⟨rfl, hrest⟩ := List.cons.inj hp
            simp only [source, List.length_append] at hle hlt'
            exact ⟨front, m', back, hrest, by omega, by omega⟩

theorem covered_iff_mask {p : Nat} : Covered word parts text p ↔
    (mask (scan word parts 0 false text))[p]? = some true := by
  rw [getElem?_mask]
  constructor
  · intro ⟨i, j, ⟨front, m, back, hp, hi, hj⟩, hle, hlt⟩
    exact ⟨front, m, back, hp, by omega, by omega⟩
  · intro ⟨front, m, back, hp, hle, hlt⟩
    exact ⟨_, _, ⟨front, m, back, hp, rfl, rfl⟩, hle, hlt⟩

instance {p : Nat} : Decidable (Covered word parts text p) :=
  decidable_of_iff _ covered_iff_mask.symm

theorem removed_iff {p : Nat} : Removed cells p ↔ cells[p]?.any Prod.snd = true := by
  unfold Removed
  cases hc : cells[p]? with
  | none => simp
  | some cell =>
    obtain ⟨c, gone⟩ := cell
    simp

instance {p : Nat} : Decidable (Removed cells p) := decidable_of_iff _ removed_iff.symm

theorem removed_remove {p : Nat} (hlen : hits.length = cells.length) :
    Removed (remove cells hits) p ↔ Removed cells p ∨ hits[p]? = some true := by
  unfold Removed remove
  rw [List.getElem?_zipWith]
  cases hc : cells[p]? with
  | none =>
    have hh : hits[p]? = none := by
      rw [List.getElem?_eq_none_iff] at hc ⊢
      omega
    simp [hh]
  | some cell =>
    obtain ⟨hp, -⟩ := List.getElem?_eq_some_iff.mp hc
    have hh : hits[p]? = some hits[p] := List.getElem?_eq_getElem (by omega)
    obtain ⟨c, gone⟩ := cell
    cases gone
    · simp [hh]
    · simp [hh]

theorem length_mask_scan (hs : parts.Solid word) :
    (mask (scan word parts 0 false (view mark cells))).length = cells.length := by
  rw [length_mask, (scanned_scan hs false (view mark cells)).source_eq, length_view]

/-- **What has been removed before, and what is hit.** -/
theorem removed_removeHits (hs : parts.Solid word) {p : Nat} :
    Removed (removeHits word mark parts cells) p ↔
      Removed cells p ∨ Covered word parts (view mark cells) p := by
  rw [removeHits, removed_remove (length_mask_scan hs), covered_iff_mask]

theorem map_fst_remove (h : hits.length = cells.length) :
    (remove cells hits).map Prod.fst = cells.map Prod.fst := by
  induction cells generalizing hits with
  | nil => rfl
  | cons cell cells ih =>
    cases hits with
    | nil => cases h
    | cons hit hits =>
      rw [List.length_cons, List.length_cons, Nat.add_right_cancel_iff] at h
      rw [List.map_cons, ← ih h]
      rfl

/-- Removed characters are still known. -/
theorem map_fst_removeHits (hs : parts.Solid word) :
    (removeHits word mark parts cells).map Prod.fst = cells.map Prod.fst :=
  map_fst_remove (length_mask_scan hs)

/-! ## Masked and replaced texts -/

variable {wall : α}

theorem rendered_kept : Rendered repl (text.map fun c => (c, false)) text := by
  induction text with
  | nil => exact .nil
  | cons c text ih => exact ih.kept

theorem wordAfter_rendered (hmark : word mark = false) (hwall : repl.head? = some wall)
    (hw : word wall = false) (h : Rendered repl cells text) :
    wordAfter word false (view mark cells) = wordAfter word false text := by
  obtain ⟨back, rfl⟩ := List.head?_eq_some_iff.mp hwall
  cases h with
  | nil => rfl
  | kept _ => rfl
  | gone hne hgone _ =>
    obtain ⟨cell, part, rfl⟩ := List.exists_cons_of_ne_nil hne
    have hcell := hgone cell List.mem_cons_self
    simp [view, hcell, hmark, hw]

/-- A front without a mark has been kept. -/
theorem Rendered.front (h : Rendered repl cells text) {m rest : List α}
    (hv : view mark cells = m ++ rest) (hm : mark ∉ m) :
    ∃ cells' text', cells = m.map (fun c => (c, false)) ++ cells' ∧ text = m ++ text' ∧
      Rendered repl cells' text' ∧ view mark cells' = rest := by
  induction m generalizing cells text with
  | nil => exact ⟨cells, text, rfl, rfl, h, hv⟩
  | cons d m ih =>
    obtain ⟨hd, hback⟩ := not_or.mp (List.mem_cons.not.mp hm)
    cases h with
    | nil => cases hv
    | kept hrest =>
      obtain ⟨hcd, htail⟩ := List.cons.inj hv
      subst hcd
      obtain ⟨cells', text', rfl, rfl, hr, hv'⟩ := ih hrest htail hback
      exact ⟨cells', text', rfl, rfl, hr, hv'⟩
    | gone hne hgone _ =>
      obtain ⟨cell, part, rfl⟩ := List.exists_cons_of_ne_nil hne
      have hcell := hgone cell List.mem_cons_self
      simp only [List.cons_append, view, List.map_cons, hcell, if_true, List.cons.injEq] at hv
      exact absurd hv.1 hd

/-- A front in which no replacement begins has been kept. -/
theorem Rendered.front_of_text (h : Rendered repl cells text) (hwall : repl.head? = some wall)
    {m rest : List α} (ht : text = m ++ rest) (hm : wall ∉ m) :
    ∃ cells', cells = m.map (fun c => (c, false)) ++ cells' ∧ Rendered repl cells' rest := by
  induction m generalizing cells text with
  | nil =>
    rw [List.nil_append] at ht
    subst ht
    exact ⟨cells, rfl, h⟩
  | cons d m ih =>
    obtain ⟨hd, hback⟩ := not_or.mp (List.mem_cons.not.mp hm)
    cases h with
    | nil => cases ht
    | kept hrest =>
      obtain ⟨hcd, htail⟩ := List.cons.inj ht
      subst hcd
      obtain ⟨cells', rfl, hr⟩ := ih hrest htail hback
      exact ⟨cells', rfl, hr⟩
    | gone _ _ _ =>
      obtain ⟨back, rfl⟩ := List.head?_eq_some_iff.mp hwall
      exact absurd (List.cons.inj ht).1 hd

@[simp] theorem view_kept (m : List α) : view mark (m.map fun c => (c, false)) = m := by
  simp [view, Function.comp_def]

theorem view_gone {part : List (α × Bool)} (h : ∀ cell ∈ part, cell.2 = true) :
    view mark part = List.replicate part.length mark := by
  rw [List.eq_replicate_iff]
  refine ⟨length_view, ?_⟩
  intro c hc
  obtain ⟨cell, hmem, rfl⟩ := List.mem_map.mp hc
  simp [h cell hmem]

theorem wordBefore_replicate {b : Bool} {n : Nat} (hn : n ≠ 0) (c : α) :
    wordBefore word b (List.replicate n c) = word c := by
  obtain ⟨n, rfl⟩ := Nat.exists_eq_succ_of_ne_zero hn
  rw [List.replicate_succ', Regex.wordBefore_append]
  rfl

/-- A run that takes marks and replacements ends at the same place. -/
theorem Rendered.run (h : Rendered repl cells text) {p : α → Bool} (hmark : p mark = true)
    (hrepl : ∀ c ∈ repl, p c = true) (hne : repl ≠ [])
    (hend : ∀ b, wordBefore word b repl = word mark) {m rest : List α}
    (hv : view mark cells = m ++ rest) (hm : ∀ c ∈ m, p c = true)
    (hrest : ∀ c ∈ rest.head?, p c = false) :
    ∃ cells₁ cells₂ m' text', cells = cells₁ ++ cells₂ ∧ view mark cells₁ = m ∧
      view mark cells₂ = rest ∧ text = m' ++ text' ∧ Rendered repl cells₂ text' ∧
      (∀ c ∈ m', p c = true) ∧ (m = [] ↔ m' = []) ∧
      ∀ b, wordBefore word b m = wordBefore word b m' := by
  induction h generalizing m with
  | nil =>
    obtain ⟨rfl, rfl⟩ := List.append_eq_nil_iff.mp hv.symm
    exact ⟨[], [], [], [], rfl, rfl, rfl, rfl, .nil, nofun, Iff.rfl, fun _ => rfl⟩
  | @kept c cells text hr ih =>
    cases m with
    | nil => exact ⟨[], _, [], _, rfl, rfl, hv, rfl, hr.kept, nofun, Iff.rfl, fun _ => rfl⟩
    | cons d m =>
      obtain ⟨hcd, htail⟩ := List.cons.inj hv
      obtain ⟨hd, hback⟩ := List.forall_mem_cons.mp hm
      obtain rfl : c = d := hcd
      obtain ⟨cells₁, cells₂, m', text', rfl, rfl, hv₂, rfl, hr', hm', -, hb⟩ := ih htail hback
      exact ⟨(c, false) :: cells₁, cells₂, c :: m', text', rfl, rfl, hv₂, rfl, hr',
        List.forall_mem_cons.mpr ⟨hd, hm'⟩, by simp, fun b => hb _⟩
  | @gone part cells text hpart hgone hr ih =>
    rw [view_append, view_gone hgone] at hv
    have hlen := List.length_pos_of_ne_nil hpart
    -- the run does not end at a mark
    obtain ⟨back, rfl, hback⟩ : ∃ back, m = List.replicate part.length mark ++ back ∧
        view mark cells = back ++ rest := by
      rcases List.append_eq_append_iff.mp hv with ⟨back, rfl, hback⟩ | ⟨mid, hmid, hback⟩
      · exact ⟨back, rfl, hback⟩
      · cases mid with
        | nil =>
          rw [List.append_nil] at hmid
          exact ⟨[], by rw [hmid, List.append_nil], by simpa using hback.symm⟩
        | cons d mid =>
          have hmem : d ∈ List.replicate part.length mark := by
            rw [hmid]
            simp
          have hd : d = mark := List.eq_of_mem_replicate hmem
          have := hrest d (by rw [hback]; rfl)
          rw [hd, hmark] at this
          cases this
    obtain ⟨cells₁, cells₂, m', text', rfl, hv₁, hv₂, rfl, hr', hm', -, hb⟩ :=
      ih hback fun c hc => hm c (List.mem_append_right _ hc)
    refine ⟨part ++ cells₁, cells₂, repl ++ m', text', by simp, ?_, hv₂, by simp, hr', ?_, ?_, ?_⟩
    · rw [view_append, view_gone hgone, hv₁]
    · intro c hc
      rcases List.mem_append.mp hc with hc | hc
      · exact hrepl c hc
      · exact hm' c hc
    · have hzero : part.length ≠ 0 := by omega
      simp [hne, hpart]
    · intro b
      rw [Regex.wordBefore_append, Regex.wordBefore_append, hend,
        wordBefore_replicate (by omega), hb]

/-! ## Removing and replacing -/

/-- What a pattern must be like to find the same in a masked text and in the one with
replacements. -/
structure Blind (word : α → Bool) (mark : α) (repl : List α) (parts : Parts α) : Prop where
  marks : ∀ b tail, ¬parts.Starts word b (mark :: tail)
  inside : ∀ b r tail, r ≠ [] → r <:+ repl → ¬parts.Starts word b (r ++ tail)
  starts : ∀ {b cells text}, Rendered repl cells text → parts.Starts word b text →
    parts.Starts word b (view mark cells)
  finds : ∀ {b cells text m rest}, Rendered repl cells text → parts.Finds word b m rest →
    view mark cells = m ++ rest → ∃ cells₁ cells₂ m' text', cells = cells₁ ++ cells₂ ∧
      view mark cells₁ = m ∧ view mark cells₂ = rest ∧ text = m' ++ text' ∧
      Rendered repl cells₂ text' ∧ parts.Finds word b m' text' ∧
      wordBefore word b m = wordBefore word b m'

theorem scan_of_not_starts {c : α} {rest : List α} (h : ¬parts.Starts word before (c :: rest)) :
    scan word parts 0 before (c :: rest) = .kept c :: scan word parts 0 (word c) rest := by
  rw [Parts.starts_iff, ← List.isEmpty_eq_false_iff_exists_mem, Bool.not_eq_false,
    List.isEmpty_iff] at h
  rw [scan, h, List.head?_nil]

theorem scan_of_finds {m rest : List α} (h : parts.Finds word before m rest) :
    scan word parts 0 before (m ++ rest) =
      .hit m :: scan word parts 0 (wordBefore word before m) rest := by
  obtain ⟨hne, he⟩ := h
  obtain ⟨c, m, rfl⟩ := List.exists_cons_of_ne_nil hne
  rw [List.cons_append] at he ⊢
  have htake : (m ++ rest).length + 1 - rest.length = (c :: m).length := by
    simp only [List.length_append, List.length_cons]
    omega
  have hskip : (m ++ rest).length - rest.length = m.length := by
    rw [List.length_append]
    omega
  rw [scan, he]
  simp only [htake, hskip]
  rw [← List.cons_append, List.take_left, scan_skip, List.take_left, List.drop_left]
  rfl

/-- A front in which the pattern does not begin is kept. -/
theorem scan_of_quiet {front : List α} (h : ∀ b r, r ≠ [] → r <:+ front →
      ¬parts.Starts word b (r ++ text)) :
    scan word parts 0 before (front ++ text) =
      front.map .kept ++ scan word parts 0 (wordBefore word before front) text := by
  induction front generalizing before with
  | nil => rfl
  | cons c front ih =>
    have hrest := @ih (word c) fun b r hr hs => h b r hr (hs.trans (List.suffix_cons _ _))
    have hfirst : ¬parts.Starts word before (c :: (front ++ text)) :=
      h before (c :: front) (List.cons_ne_nil _ _) List.suffix_rfl
    rw [List.cons_append, scan_of_not_starts hfirst, hrest]
    rfl

@[simp] theorem render_append (front back : List (Piece α)) :
    render repl (front ++ back) = render repl front ++ render repl back := by
  induction front with
  | nil => rfl
  | cons piece front ih =>
    cases piece with
    | kept c => simp [render, ih]
    | hit m => simp [render, ih]

@[simp] theorem render_kept (front : List α) : render repl (front.map .kept) = front := by
  induction front with
  | nil => rfl
  | cons c front ih => rw [List.map_cons, render, ih]

@[simp] theorem mask_append (front back : List (Piece α)) :
    mask (front ++ back) = mask front ++ mask back := by
  induction front with
  | nil => rfl
  | cons piece front ih =>
    cases piece with
    | kept c => simp [mask, ih]
    | hit m => simp [mask, ih]

@[simp] theorem mask_kept (front : List α) :
    mask (front.map .kept) = List.replicate front.length false := by
  induction front with
  | nil => rfl
  | cons c front ih => rw [List.map_cons, mask, ih]; rfl

theorem remove_append {left right : List (α × Bool)} {hits' : List Bool}
    (h : left.length = hits.length) :
    remove (left ++ right) (hits ++ hits') = remove left hits ++ remove right hits' :=
  List.zipWith_append h

theorem remove_none {n : Nat} (h : cells.length = n) :
    remove cells (List.replicate n false) = cells := by
  subst h
  induction cells with
  | nil => rfl
  | cons cell cells ih =>
    simpa [remove, List.replicate_succ] using ih

theorem gone_of_remove {n : Nat} : ∀ cell ∈ remove cells (List.replicate n true),
    cell.2 = true := by
  intro cell hmem
  obtain ⟨p, hp⟩ := List.mem_iff_getElem?.mp hmem
  obtain ⟨cell', hit, -, hhit, rfl⟩ := List.getElem?_zipWith_eq_some.mp hp
  obtain rfl := List.eq_of_mem_replicate (List.mem_of_getElem? hhit)
  exact Bool.or_true _

/-- **Removing what a pattern hits is replacing it.** -/
theorem Rendered.substitute (hb : Blind word mark repl parts) (hs : parts.Solid word)
    (hend : ∀ b, wordBefore word b repl = word mark) (h : Rendered repl cells text)
    (before : Bool) :
    Rendered repl (remove cells (mask (scan word parts 0 before (view mark cells))))
      (render repl (scan word parts 0 before text)) := by
  induction hlen : cells.length using Nat.strong_induction_on generalizing cells text before with
  | _ n ih =>
    cases h with
    | nil => exact .nil
    | @kept c cells text hr =>
      by_cases hstarts : parts.Starts word before (c :: view mark cells)
      · obtain ⟨m, rest, hv, hf⟩ := hs.finds hstarts
        obtain ⟨cells₁, cells₂, m', text', hcells, hv₁, hv₂, ht, hr₂, hf', hbefore⟩ :=
          hb.finds hr.kept hf hv
        have hm : cells₁.length = m.length := by rw [← hv₁, length_view]
        have hpos := List.length_pos_of_ne_nil hf.1
        have hrest := ih cells₂.length (by
          rw [← hlen, hcells, List.length_append]
          omega) hr₂ (wordBefore word before m) rfl
        rw [hcells, view_append, hv₁, hv₂, scan_of_finds hf, ht, scan_of_finds hf', mask, render,
          remove_append (by simpa using hm), ← hbefore]
        rw [hv₂] at hrest
        refine .gone ?_ ?_ hrest
        · rw [ne_eq, ← List.length_eq_zero_iff, remove, List.length_zipWith, List.length_replicate]
          omega
        · exact gone_of_remove
      · have htext : ¬parts.Starts word before (c :: text) := fun h => hstarts (hb.starts hr.kept h)
        have hrest := ih cells.length (by rw [← hlen]; simp) hr (word c) rfl
        rw [scan_of_not_starts htext]
        have hscan : scan word parts 0 before (view mark ((c, false) :: cells)) = _ :=
          scan_of_not_starts hstarts
        rw [hscan]
        exact hrest.kept
    | @gone part cells text hne hgone hr =>
      have hpos := List.length_pos_of_ne_nil hne
      have hrest := ih cells.length (by
        rw [← hlen, List.length_append]
        omega) hr (word mark) rfl
      have hquiet : ∀ b r, r ≠ [] → r <:+ List.replicate part.length mark →
          ¬parts.Starts word b (r ++ view mark cells) := by
        intro b r hr hsuffix
        obtain ⟨c, r, rfl⟩ := List.exists_cons_of_ne_nil hr
        obtain rfl := List.eq_of_mem_replicate (hsuffix.subset List.mem_cons_self)
        exact hb.marks b _
      rw [view_append, view_gone hgone, scan_of_quiet hquiet,
        scan_of_quiet fun b r hr hs => hb.inside b r text hr hs, mask_append, render_append,
        mask_kept, render_kept, List.length_replicate, remove_append (by simp),
        remove_none rfl, wordBefore_replicate (by omega), hend]
      exact hrest.gone hne hgone

/-! ## Patterns that find the same -/

section Blind
variable (hwall : repl.head? = some mark)
  (hinside : ∀ b r tail, r ≠ [] → r <:+ repl → ¬parts.Starts word b (r ++ tail))
include hwall hinside

/-- A pattern whose matches have no mark. -/
theorem blind_of_bare (hs : parts.Solid word) (hl : parts.Longest word)
    (hmark : word mark = false)
    (hbare : ∀ {b m after}, parts.Matches word b m after → mark ∉ m) :
    Blind word mark repl parts where
  marks b tail := by
    intro ⟨m, post, heq, hm⟩
    cases m with
    | nil => exact hs _ _ hm
    | cons d m =>
      obtain ⟨rfl, -⟩ := List.cons.inj heq
      exact hbare hm List.mem_cons_self
  inside := hinside
  starts hr := by
    intro ⟨m, post, ht, hm⟩
    obtain ⟨cells, rfl, hr'⟩ := hr.front_of_text hwall ht (hbare hm)
    refine ⟨m, view mark cells, by simp, ?_⟩
    rwa [wordAfter_rendered hmark hwall hmark hr']
  finds {b cells text m rest} hr hf hv := by
    obtain ⟨cells', text', rfl, rfl, hr', hv'⟩ := hr.front hv (hbare hf.matches)
    refine ⟨_, cells', m, text', rfl, by simp, hv', rfl, hr', ?_, rfl⟩
    have hm : parts.Matches word b m (wordAfter word false text') := by
      rw [← wordAfter_rendered hmark hwall hmark hr', hv']
      exact hf.matches
    have hstarts : parts.Starts word b (m ++ text') := ⟨m, text', rfl, hm⟩
    obtain ⟨m₂, rest₂, heq, hf₂⟩ := hs.finds hstarts
    -- what is found in the text is a match of the masked text, and the other way round
    obtain ⟨cells₂, hcells, hr₂⟩ := hr.front_of_text hwall heq (hbare hf₂.matches)
    have hv₂ : m ++ rest = m₂ ++ view mark cells₂ := by rw [← hv, hcells]; simp
    have hle := hl hf hv₂ (by
      rw [wordAfter_rendered hmark hwall hmark hr₂]
      exact hf₂.matches)
    have hge := hl hf₂ heq.symm hm
    obtain ⟨rfl, rfl⟩ := List.append_inj heq (by omega)
    exact hf₂

variable {lead : Bool → List α → Prop} {p : α → Bool}

/-- A pattern of a lead without marks and a run that takes marks and replacements. -/
theorem Parts.LedBy.blind (hled : parts.LedBy word lead p) (hs : parts.Solid word)
    (hend : ∀ b, wordBefore word b repl = word mark) (hmark : p mark = true)
    (hrepl : ∀ c ∈ repl, p c = true)
    (hbare : ∀ {b front}, lead b front → front ≠ [] ∧ mark ∉ front) :
    Blind word mark repl parts where
  marks b tail := by
    intro ⟨_, post, heq, hm⟩
    obtain ⟨front, run, rfl, hl, -⟩ := hled.matches_iff.mp hm
    obtain ⟨hne, hout⟩ := hbare hl
    obtain ⟨d, front, rfl⟩ := List.exists_cons_of_ne_nil hne
    obtain ⟨rfl, -⟩ := List.cons.inj heq
    exact hout List.mem_cons_self
  inside := hinside
  starts {b cells text} hr := by
    intro ⟨_, post, ht, hm⟩
    obtain ⟨front, run, rfl, hl, hne, hrun⟩ := hled.matches_iff.mp hm
    rw [List.append_assoc] at ht
    obtain ⟨cells', rfl, hr'⟩ := hr.front_of_text hwall ht (hbare hl).2
    obtain ⟨c, run, rfl⟩ := List.exists_cons_of_ne_nil hne
    -- a character of the class or a mark stands behind the lead
    obtain ⟨d, back, hd, hp⟩ : ∃ d back, view mark cells' = d :: back ∧ p d = true := by
      rw [List.cons_append] at hr'
      generalize htext : c :: (run ++ post) = text' at hr'
      cases hr' with
      | nil => cases htext
      | kept _ =>
        obtain ⟨rfl, -⟩ := List.cons.inj htext
        exact ⟨_, _, rfl, hrun _ List.mem_cons_self⟩
      | @gone part cells _ hpart hgone _ =>
        obtain ⟨cell, part, rfl⟩ := List.exists_cons_of_ne_nil hpart
        have hcell := hgone cell List.mem_cons_self
        exact ⟨mark, view mark (part ++ cells), by simp [view, hcell], hmark⟩
    refine ⟨front ++ [d], back, by simp [hd], hled.matches_iff.mpr ?_⟩
    exact ⟨front, [d], rfl, hl, List.cons_ne_nil _ _, by simpa using hp⟩
  finds {b cells text m rest} hr hf hv := by
    obtain ⟨⟨front, run, rfl, hl, hne, hrun⟩, hrest⟩ := (hled.finds_iff hs).mp hf
    rw [List.append_assoc] at hv
    obtain ⟨cells', text', rfl, rfl, hr', hv'⟩ := hr.front hv (hbare hl).2
    have hrepl_ne : repl ≠ [] := by
      rintro rfl
      cases hwall
    obtain ⟨cells₁, cells₂, run', text'', rfl, hv₁, hv₂, rfl, hr'', hrun', hnil, hb⟩ :=
      hr'.run hmark hrepl hrepl_ne hend hv' hrun hrest
    refine ⟨front.map (fun c => (c, false)) ++ cells₁, cells₂, front ++ run', text'', by simp,
      by simp [hv₁], hv₂, by simp, hr'', ?_, ?_⟩
    · refine (hled.finds_iff hs).mpr ⟨⟨front, run', rfl, hl, fun h => hne (hnil.mpr h), hrun'⟩, ?_⟩
      -- the run ends in both at a kept character, or at the end
      intro c hc
      cases hr'' with
      | nil => cases hc
      | kept _ =>
        obtain rfl : _ = c := by simpa using hc
        exact hrest _ (by rw [← hv₂]; rfl)
      | gone hpart hgone _ =>
        obtain ⟨cell, part, rfl⟩ := List.exists_cons_of_ne_nil hpart
        have hcell := hgone cell List.mem_cons_self
        have := hrest mark (by rw [← hv₂]; simp [view, hcell])
        rw [hmark] at this
        cases this
    · rw [Regex.wordBefore_append, Regex.wordBefore_append, hb]

end Blind

end AgenticDelivery.Data
