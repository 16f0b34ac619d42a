import Mathlib.Data.List.Sort

/-! # The first of a ranking

A list is sorted by a total preorder and cut after its first `k` members, or, when
`k` is negative, before its last ones. What becomes of a member when others join the
list depends on how many of them rank before it. -/
namespace AgenticDelivery.Data

section Ranking
variable {α : Type}

/-- `items[:stop]`; a negative bound counts from the end. -/
def sliceTo (stop : Int) (items : List α) : List α :=
  items.take (if stop < 0 then items.length + stop else stop).toNat

@[simp] theorem sliceTo_natCast (k : Nat) (items : List α) : sliceTo k items = items.take k := by
  rw [sliceTo, if_neg (by omega), Int.toNat_natCast]

theorem sliceTo_sublist (stop : Int) (items : List α) : (sliceTo stop items).Sublist items :=
  List.take_sublist _ _

theorem map_sliceTo {β : Type} (f : α → β) (stop : Int) (items : List α) :
    (sliceTo stop items).map f = sliceTo stop (items.map f) := by
  rw [sliceTo, sliceTo, List.map_take, List.length_map]

variable (le : α → α → Prop) [DecidableRel le]

/-- `sorted(l)[:k]` -/
def top (k : Int) (l : List α) : List α := sliceTo k (l.insertionSort le)

/-- How many of the list rank before `a`. -/
def ahead (l : List α) (a : α) : Nat := l.countP fun b => decide (le b a ∧ ¬le a b)

/-- Nothing else in the list has the rank of `a`. -/
def Alone (l : List α) (a : α) : Prop := ∀ b ∈ l, le a b → le b a → b = a

variable {le} {k : Nat} {stop : Int} {a : α} {l c m : List α}

theorem ahead_perm (h : l.Perm c) : ahead le l a = ahead le c a := h.countP_eq _

theorem ahead_append : ahead le (c ++ m) a = ahead le c a + ahead le m a := List.countP_append

theorem top_subset : top le stop l ⊆ l :=
  fun _ ha => (List.perm_insertionSort le l).subset ((sliceTo_sublist _ _).subset ha)

omit [DecidableRel le] in
theorem Alone.subset (h : Alone le l a) (hs : c ⊆ l) : Alone le c a :=
  fun b hb => h b (hs hb)

/-- In a sorted list, what is before a member is what ranks before it. -/
theorem mem_take_iff_ahead (hl : l.Pairwise le) (hr : ∀ b : α, le b b) (ha : a ∈ l)
    (h : Alone le l a) : a ∈ l.take k ↔ ahead le l a < k := by
  induction l generalizing k with
  | nil => cases ha
  | cons b l ih =>
    obtain ⟨hb, hl⟩ := List.pairwise_cons.mp hl
    have hrest : Alone le l a := h.subset (List.subset_cons_self b l)
    cases k with
    | zero => simp
    | succ k =>
      by_cases hab : b = a
      · subst hab
        have hzero : ahead le (b :: l) b = 0 := by
          refine List.countP_eq_zero.mpr fun d hd hlt => ?_
          obtain ⟨-, hlt⟩ := of_decide_eq_true hlt
          rcases List.mem_cons.mp hd with rfl | hd
          · exact hlt (hr d)
          · exact hlt (hb d hd)
        rw [hzero, List.take_succ_cons]
        exact ⟨fun _ => Nat.succ_pos k, fun _ => List.mem_cons_self⟩
      · have hmem : a ∈ l := by
          rcases List.mem_cons.mp ha with rfl | hmem
          · exact absurd rfl hab
          · exact hmem
        have hlt : le b a ∧ ¬le a b :=
          ⟨hb a hmem, fun hba => hab (h b List.mem_cons_self hba (hb a hmem))⟩
        have hcount : ahead le (b :: l) a = ahead le l a + 1 :=
          List.countP_cons_of_pos (p := fun b => decide (le b a ∧ ¬le a b)) (decide_eq_true hlt)
        rw [List.take_succ_cons, List.mem_cons, or_iff_right (Ne.symm hab), ih hl hmem hrest,
          hcount]
        exact Nat.succ_lt_succ_iff.symm

variable [Std.Total le] [IsTrans α le]

/-- **A member is among the first `k` when fewer than `k` rank before it.** -/
theorem mem_top_iff (ha : a ∈ l) (h : Alone le l a) : a ∈ top le k l ↔ ahead le l a < k := by
  have hperm := List.perm_insertionSort le l
  have hr (b : α) : le b b := (Std.Total.total b b).elim id id
  rw [top, sliceTo_natCast, mem_take_iff_ahead (List.pairwise_insertionSort le l) hr
    (hperm.mem_iff.mpr ha) (h.subset hperm.subset), ahead_perm hperm]

theorem top_pairwise : (top le stop l).Pairwise le :=
  (List.pairwise_insertionSort le l).sublist (sliceTo_sublist _ _)

/-- **Nothing that is cut off ranks strictly before what is left.** -/
theorem le_of_mem_top {b : α} (ha : a ∈ top le stop l) (hb : b ∈ l)
    (hcut : b ∉ top le stop l) : le a b := by
  obtain ⟨cut, hsplit⟩ : ∃ cut, top le stop l ++ cut = l.insertionSort le :=
    List.take_prefix _ _
  have hb' : b ∈ l.insertionSort le := (List.perm_insertionSort le l).mem_iff.mpr hb
  have hsorted := List.pairwise_insertionSort le l
  rw [← hsplit] at hb' hsorted
  have hlater := (List.mem_append.mp hb').resolve_left hcut
  exact (List.pairwise_append.mp hsorted).2.2 a ha b hlater

/-- **There is one way to sort** a list whose members are alone in their ranks. -/
theorem eq_insertionSort (h : ∀ a ∈ l, Alone le l a) (hp : c.Perm l) (hs : c.Pairwise le) :
    c = l.insertionSort le := by
  have hsort := List.perm_insertionSort le l
  refine (hp.trans hsort.symm).eq_of_pairwise ?_ hs (List.pairwise_insertionSort le l)
  intro a b ha hb hab hba
  exact (h a (hp.subset ha) b (hsort.subset hb) hab hba).symm

/-- The order in which the members are given does not matter. -/
theorem top_perm (h : ∀ a ∈ l, Alone le l a) (hp : c.Perm l) :
    top le stop c = top le stop l := by
  rw [top, eq_insertionSort h ((List.perm_insertionSort le c).trans hp)
    (List.pairwise_insertionSort le c), top]

section Join
variable {keep : α → Bool}

/-- What is kept of the first `k` of a list that others, which are not kept, have joined. -/
theorem mem_filter_top_iff (hl : l.Perm (c ++ m)) (hm : ∀ a ∈ m, keep a = false)
    (hal : ∀ a ∈ c, Alone le l a) :
    a ∈ (top le k l).filter keep ↔ a ∈ c ∧ keep a = true ∧ ahead le l a < k := by
  rw [List.mem_filter]
  constructor
  · rintro ⟨ha, hk⟩
    have hal' : a ∈ l := top_subset ha
    have hc : a ∈ c := by
      rcases List.mem_append.mp (hl.subset hal') with hc | hma
      · exact hc
      · rw [hm a hma] at hk
        cases hk
    exact ⟨hc, hk, (mem_top_iff hal' (hal a hc)).mp ha⟩
  · rintro ⟨hc, hk, hlt⟩
    have ha : a ∈ l := hl.symm.subset (List.mem_append_left m hc)
    exact ⟨(mem_top_iff ha (hal a hc)).mpr hlt, hk⟩

omit [Std.Total le] [IsTrans α le] in
theorem nodup_filter_top (hl : l.Perm (c ++ m)) (hm : ∀ a ∈ m, keep a = false) (hc : c.Nodup) :
    ((top le stop l).filter keep).Nodup := by
  have hsub : ((top le stop l).filter keep).Sublist ((l.insertionSort le).filter keep) :=
    (sliceTo_sublist _ _).filter keep
  have hperm : ((l.insertionSort le).filter keep).Perm (c.filter keep) := by
    have hnone : m.filter keep = [] :=
      List.filter_eq_nil_iff.mpr fun a ha => by rw [hm a ha]; exact Bool.false_ne_true
    have hall := ((List.perm_insertionSort le l).trans hl).filter keep
    rwa [List.filter_append, hnone, List.append_nil] at hall
  exact (hperm.nodup_iff.mpr (hc.filter keep)).sublist hsub

/-- Nothing new is kept of the first `k`. -/
theorem filter_top_subset (hl : l.Perm (c ++ m)) (hm : ∀ a ∈ m, keep a = false)
    (hal : ∀ a ∈ c, Alone le l a) : (top le k l).filter keep ⊆ (top le k c).filter keep := by
  intro a ha
  obtain ⟨hc, hk, hlt⟩ := (mem_filter_top_iff hl hm hal).mp ha
  rw [ahead_perm hl, ahead_append] at hlt
  have hcl : c ⊆ l := fun b hb => hl.symm.subset (List.mem_append_left m hb)
  exact List.mem_filter.mpr ⟨(mem_top_iff hc ((hal a hc).subset hcl)).mpr (by omega), hk⟩

/-- **What is kept of the first `k` stays the same exactly when no kept member is
pushed out of them.** -/
theorem filter_top_eq_iff (hl : l.Perm (c ++ m)) (hm : ∀ a ∈ m, keep a = false) (hc : c.Nodup)
    (hal : ∀ a ∈ c, Alone le l a) :
    (top le k l).filter keep = (top le k c).filter keep ↔
      ∀ a ∈ c, keep a = true → ahead le c a < k → ahead le l a < k := by
  have hself : c.Perm (c ++ []) := by rw [List.append_nil]
  have hcl : c ⊆ l := fun a ha => hl.symm.subset (List.mem_append_left m ha)
  have hal' : ∀ a ∈ c, Alone le c a := fun a ha => (hal a ha).subset hcl
  have hmem (a : α) := mem_filter_top_iff (k := k) (a := a) hl hm hal
  have hmem' (a : α) : a ∈ (top le k c).filter keep ↔ a ∈ c ∧ keep a = true ∧ ahead le c a < k :=
    mem_filter_top_iff hself nofun hal'
  constructor
  · intro he a ha hk hlt
    have := (hmem' a).mpr ⟨ha, hk, hlt⟩
    rw [← he] at this
    exact ((hmem a).mp this).2.2
  · intro h
    have hsorted (l : List α) : ((top le k l).filter keep).Pairwise le := top_pairwise.filter keep
    refine @List.Perm.eq_of_pairwise _ le _ _ ?_ (hsorted l) (hsorted c) ?_
    · intro a b ha hb hab hba
      exact (hal a ((hmem a).mp ha).1 b (hcl ((hmem' b).mp hb).1) hab hba).symm
    · rw [List.perm_ext_iff_of_nodup (nodup_filter_top hl hm hc) (nodup_filter_top hself nofun hc)]
      intro a
      rw [hmem, hmem']
      constructor
      · rintro ⟨ha, hk, hlt⟩
        rw [ahead_perm hl, ahead_append] at hlt
        exact ⟨ha, hk, by omega⟩
      · rintro ⟨ha, hk, hlt⟩
        exact ⟨ha, hk, h a ha hk hlt⟩

end Join

end Ranking

end AgenticDelivery.Data
