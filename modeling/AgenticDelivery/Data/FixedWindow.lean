import Mathlib.Algebra.Order.Field.Basic
import Mathlib.Algebra.Order.Floor.Semiring
import Mathlib.Data.List.Induction
import Mathlib.Data.List.Pairwise
import Mathlib.Tactic.Linarith

/-! # Fixed windows

A limiter that counts calls in windows. A window opens with the first call that
finds none open, and is over `width` later; in it `limit` calls are allowed.
The windows stand apart, so an interval as long as a window meets two of them at
most. -/
namespace AgenticDelivery.Data

structure Window (τ : Type) where
  startedAt : τ
  requests : Nat
  deriving DecidableEq

/-- What has become of the calls: the starts of the windows, and the allowed calls. -/
structure WindowHistory (τ : Type) where
  window : Option (Window τ) := none
  starts : List τ := []
  allowed : List τ := []

variable {τ : Type} [Field τ] [LinearOrder τ]

/-- The window after a call that is allowed. -/
def windowAfter (limit : Nat) (width : τ) (window : Option (Window τ)) (now : τ) :
    Option (Window τ) :=
  match window with
  | none => some ⟨now, 1⟩
  | some w =>
    if width ≤ now - w.startedAt then some ⟨now, 1⟩
    else if limit ≤ w.requests then none
    else some { w with requests := w.requests + 1 }

namespace WindowHistory

def step (limit : Nat) (width : τ) (h : WindowHistory τ) (now : τ) : WindowHistory τ :=
  match windowAfter limit width h.window now with
  | none => h
  | some w =>
    { window := some w
      starts := if w.startedAt ∈ h.starts then h.starts else h.starts ++ [w.startedAt]
      allowed := h.allowed ++ [now] }

/-- The calls at these times, one after the other. -/
def after (limit : Nat) (width : τ) (times : List τ) : WindowHistory τ :=
  times.foldl (step limit width) {}

@[simp] theorem after_concat (limit : Nat) (width : τ) (times : List τ) (now : τ) :
    after limit width (times ++ [now]) = (after limit width times).step limit width now := by
  rw [after, List.foldl_append]
  rfl

/-- How many calls were allowed in the interval of one width from `start` on. -/
def allowedIn (h : WindowHistory τ) (width start : τ) : Nat :=
  h.allowed.countP fun t => start ≤ t ∧ t < start + width

/-- The current window and the calls since its start. -/
structure Current (limit : Nat) (width : τ) (times : List τ) (h : WindowHistory τ)
    (w : Window τ) : Prop where
  started : w.startedAt ∈ h.starts
  latest : ∀ s ∈ h.starts, s ≤ w.startedAt
  counted : h.allowed.countP (w.startedAt ≤ ·) = w.requests
  bounded : w.requests ≤ limit
  covers : ∀ t ∈ times, t < w.startedAt + width

/-- What holds after calls at these times. -/
structure Sound (limit : Nat) (width : τ) (times : List τ) (h : WindowHistory τ) : Prop where
  called : h.allowed ⊆ times
  opened : h.starts ⊆ times
  apart : h.starts.Pairwise fun s s' => s + width ≤ s'
  within : ∀ t ∈ h.allowed, ∃ s ∈ h.starts, s ≤ t ∧ t < s + width
  bounded : ∀ s ∈ h.starts, h.allowedIn width s ≤ limit
  idle : h.window = none → times = []
  current : ∀ w, h.window = some w → Current limit width times h w

variable {limit : Nat} {width now start : τ} {times : List τ} {h : WindowHistory τ} {w : Window τ}

theorem step_denied (hd : windowAfter limit width h.window now = none) :
    h.step limit width now = h := by
  rw [step, hd]

theorem step_allowed (ha : windowAfter limit width h.window now = some w) :
    h.step limit width now =
      { window := some w
        starts := if w.startedAt ∈ h.starts then h.starts else h.starts ++ [w.startedAt]
        allowed := h.allowed ++ [now] } := by
  rw [step, ha]

/-- What a call can do: open a window, be denied in one, or be counted in it. -/
theorem windowAfter_cases (limit : Nat) (width now : τ) (window : Option (Window τ)) :
    (windowAfter limit width window now = some ⟨now, 1⟩ ∧
      ∀ w, window = some w → width ≤ now - w.startedAt) ∨
    (∃ w, window = some w ∧ now - w.startedAt < width ∧
      (limit ≤ w.requests ∧ windowAfter limit width window now = none ∨
        w.requests < limit ∧ windowAfter limit width window now =
          some { w with requests := w.requests + 1 })) := by
  cases window with
  | none => exact .inl ⟨rfl, nofun⟩
  | some w =>
    by_cases hw : width ≤ now - w.startedAt
    · refine .inl ⟨if_pos hw, fun w' hw' => ?_⟩
      cases hw'
      exact hw
    · refine .inr ⟨w, rfl, not_le.mp hw, ?_⟩
      rw [windowAfter, if_neg hw]
      by_cases hl : limit ≤ w.requests
      · exact .inl ⟨hl, if_pos hl⟩
      · exact .inr ⟨Nat.not_le.mp hl, if_neg hl⟩

/-- A start stays a start. -/
theorem starts_subset (limit : Nat) (width : τ) (times more : List τ) :
    (after limit width times).starts ⊆ (after limit width (times ++ more)).starts := by
  induction more using List.reverseRecOn with
  | nil => rw [List.append_nil]; exact List.Subset.refl _
  | append_singleton more now ih =>
    rw [← List.append_assoc, after_concat]
    refine List.Subset.trans ih ?_
    generalize after limit width (times ++ more) = h
    cases ha : windowAfter limit width h.window now with
    | none => rw [step_denied ha]; exact List.Subset.refl _
    | some w =>
      rw [step_allowed ha]
      show h.starts ⊆ if w.startedAt ∈ h.starts then h.starts else h.starts ++ [w.startedAt]
      split
      · exact List.Subset.refl _
      · exact List.subset_append_left _ _

/-! ## One call -/

/-- The interval from a start on, after one more call is allowed. -/
theorem allowedIn_concat (window : Option (Window τ)) (starts : List τ) :
    allowedIn ⟨window, starts, h.allowed ++ [now]⟩ width start =
      h.allowedIn width start + if start ≤ now ∧ now < start + width then 1 else 0 := by
  rw [allowedIn, List.countP_append, List.countP_singleton]
  exact congrArg (h.allowedIn width start + ·) (if_congr decide_eq_true_iff rfl rfl)

theorem allowedIn_le_countP : h.allowedIn width start ≤ h.allowed.countP (start ≤ ·) :=
  List.countP_mono_left fun _ _ ht => decide_eq_true (of_decide_eq_true ht).1

/-- Two starts are one, or a width apart. -/
theorem Sound.separate (hs : Sound limit width times h) {s s' : τ} (hm : s ∈ h.starts)
    (hm' : s' ∈ h.starts) : s = s' ∨ s + width ≤ s' ∨ s' + width ≤ s := by
  have hboth : h.starts.Pairwise fun s s' => s + width ≤ s' ∨ s' + width ≤ s :=
    hs.apart.imp .inl
  have : Std.Symm fun s s' => s + width ≤ s' ∨ s' + width ≤ s := ⟨fun _ _ => Or.symm⟩
  by_cases he : s = s'
  · exact .inl he
  · exact .inr (hboth.forall hm hm' he)

omit [Field τ] [LinearOrder τ] in
theorem countP_or_le (p q : τ → Bool) (l : List τ) :
    l.countP (fun t => p t || q t) ≤ l.countP p + l.countP q := by
  induction l with
  | nil => exact Nat.zero_le _
  | cons t l ih =>
    simp only [List.countP_cons]
    cases p t <;> cases q t <;> simp <;> omega

/-- In some windows, each within the limit, so much is allowed. -/
theorem countP_any_le (starts : List τ) (hb : ∀ s ∈ starts, h.allowedIn width s ≤ limit) :
    h.allowed.countP (fun t => starts.any fun s => s ≤ t ∧ t < s + width) ≤
      starts.length * limit := by
  induction starts with
  | nil => simp
  | cons s starts ih =>
    obtain ⟨hs, hb⟩ := List.forall_mem_cons.mp hb
    have hor := countP_or_le (fun t => decide (s ≤ t ∧ t < s + width))
      (fun t => starts.any fun s => s ≤ t ∧ t < s + width) h.allowed
    have hrest := ih hb
    rw [List.length_cons, Nat.succ_mul]
    simp only [List.any_cons]
    exact hor.trans (by rw [Nat.add_comm]; exact Nat.add_le_add hrest hs)

variable [IsStrictOrderedRing τ]

/-- A call before which everything is over opens a window. -/
theorem Sound.opens (hs : Sound limit width times h) (hl : 1 ≤ limit) (hwidth : 0 < width)
    (hover : ∀ t ∈ times, t < now) (hend : ∀ s ∈ h.starts, s + width ≤ now) :
    Sound limit width (times ++ [now])
      ⟨some ⟨now, 1⟩, h.starts ++ [now], h.allowed ++ [now]⟩ := by
  have hnone : h.allowed.countP (now ≤ ·) = 0 := by
    refine List.countP_eq_zero.mpr fun t ht => ?_
    rw [decide_eq_true_eq, not_le]
    exact hover t (hs.called ht)
  have hnew : h.allowedIn width now = 0 := Nat.le_zero.mp (hnone ▸ allowedIn_le_countP)
  have hself : now < now + width := lt_add_of_pos_right now hwidth
  refine
    { called := List.append_subset.mpr ⟨fun t ht => List.mem_append_left _ (hs.called ht),
        List.subset_append_right _ _⟩
      opened := List.append_subset.mpr ⟨fun t ht => List.mem_append_left _ (hs.opened ht),
        List.subset_append_right _ _⟩
      apart := List.pairwise_append.mpr ⟨hs.apart, List.pairwise_singleton _ _, fun s hm s' hm' =>
        List.mem_singleton.mp hm' ▸ hend s hm⟩
      within := fun t ht => ?_
      bounded := fun s hm => ?_
      idle := nofun
      current := fun w hw => ?_ }
  · rcases List.mem_append.mp ht with ht | ht
    · obtain ⟨s, hm, hin⟩ := hs.within t ht
      exact ⟨s, List.mem_append_left _ hm, hin⟩
    · rw [List.mem_singleton.mp ht]
      exact ⟨now, List.mem_append_right _ (List.mem_singleton_self now), le_refl now, hself⟩
  · rw [allowedIn_concat]
    rcases List.mem_append.mp hm with hm | hm
    · rw [if_neg fun hin => absurd hin.2 (not_lt.mpr (hend s hm))]
      exact hs.bounded s hm
    · rw [List.mem_singleton.mp hm, hnew, if_pos ⟨le_refl now, hself⟩]
      exact hl
  · cases hw
    refine ⟨by simp, fun s hm => ?_, ?_, hl, fun t ht => ?_⟩
    · rcases List.mem_append.mp hm with hm | hm
      · exact (le_add_of_nonneg_right hwidth.le).trans (hend s hm)
      · exact le_of_eq (List.mem_singleton.mp hm)
    · rw [List.countP_append, hnone]
      simp
    · rcases List.mem_append.mp ht with ht | ht
      · exact (hover t ht).trans hself
      · exact List.mem_singleton.mp ht ▸ hself

/-- A call in an open window is counted in it. -/
theorem Sound.counts (hs : Sound limit width times h) (hwidth : 0 < width)
    (hw : h.window = some w)
    (hnow : ∀ t ∈ times, t ≤ now) (hopen : now < w.startedAt + width)
    (hfree : w.requests < limit) :
    Sound limit width (times ++ [now])
      ⟨some { w with requests := w.requests + 1 }, h.starts, h.allowed ++ [now]⟩ := by
  have hc := hs.current w hw
  have hstarted : w.startedAt ≤ now := hnow _ (hs.opened hc.started)
  have hlast (s : τ) (hm : s ∈ h.starts) : s = w.startedAt ∨ s + width ≤ w.startedAt := by
    rcases hs.separate hm hc.started with he | hle | hle
    · exact .inl he
    · exact .inr hle
    · have := hc.latest s hm
      linarith
  refine
    { called := List.append_subset.mpr ⟨fun t ht => List.mem_append_left _ (hs.called ht),
        List.subset_append_right _ _⟩
      opened := fun s hm => List.mem_append_left _ (hs.opened hm)
      apart := hs.apart
      within := fun t ht => ?_
      bounded := fun s hm => ?_
      idle := nofun
      current := fun w' hw' => ?_ }
  · rcases List.mem_append.mp ht with ht | ht
    · exact hs.within t ht
    · rw [List.mem_singleton.mp ht]
      exact ⟨w.startedAt, hc.started, hstarted, hopen⟩
  · rw [allowedIn_concat]
    rcases hlast s hm with rfl | hend
    · have hle : h.allowedIn width w.startedAt ≤ _ := allowedIn_le_countP
      rw [hc.counted] at hle
      split <;> omega
    · rw [if_neg fun hin => absurd hin.2 (not_lt.mpr (hend.trans hstarted))]
      exact hs.bounded s hm
  · cases hw'
    refine ⟨hc.started, hc.latest, ?_, hfree, fun t ht => ?_⟩
    · rw [List.countP_append, hc.counted, List.countP_singleton, if_pos (decide_eq_true hstarted)]
    · rcases List.mem_append.mp ht with ht | ht
      · exact hc.covers t ht
      · exact List.mem_singleton.mp ht ▸ hopen

/-- **What holds after some calls holds after one more.** -/
theorem Sound.step (hs : Sound limit width times h) (hl : 1 ≤ limit) (hwidth : 0 < width)
    (hnow : ∀ t ∈ times, t ≤ now) :
    Sound limit width (times ++ [now]) (h.step limit width now) := by
  rcases windowAfter_cases limit width now h.window with
    ⟨ha, hover⟩ | ⟨w, hw, hopen, hlimit⟩
  · have hpast : (∀ t ∈ times, t < now) ∧ ∀ s ∈ h.starts, s + width ≤ now := by
      cases hw : h.window with
      | none =>
        obtain rfl := hs.idle hw
        exact ⟨nofun, fun s hm => absurd (hs.opened hm) List.not_mem_nil⟩
      | some w =>
        have hc := hs.current w hw
        have hend := le_sub_iff_add_le'.mp (hover w hw)
        refine ⟨fun t ht => (hc.covers t ht).trans_le hend, fun s hm => ?_⟩
        exact (add_le_add_left (hc.latest s hm) width).trans hend
    have hnew : now ∉ h.starts := fun hm => lt_irrefl now (hpast.1 now (hs.opened hm))
    rw [step_allowed ha, if_neg hnew]
    exact hs.opens hl hwidth hpast.1 hpast.2
  · rw [sub_lt_iff_lt_add'] at hopen
    have hc := hs.current w hw
    rcases hlimit with ⟨-, hd⟩ | ⟨hfree, ha⟩
    · rw [step_denied hd]
      exact
        { called := fun t ht => List.mem_append_left _ (hs.called ht)
          opened := fun s hm => List.mem_append_left _ (hs.opened hm)
          apart := hs.apart
          within := hs.within
          bounded := hs.bounded
          idle := fun hn => by
            rw [hw] at hn
            cases hn
          current := fun w' hw' => by
            obtain rfl := Option.some.inj (hw.symm.trans hw')
            refine ⟨hc.started, hc.latest, hc.counted, hc.bounded, fun t ht => ?_⟩
            rcases List.mem_append.mp ht with ht | ht
            · exact hc.covers t ht
            · exact List.mem_singleton.mp ht ▸ hopen }
    · rw [step_allowed ha, if_pos hc.started]
      exact hs.counts hwidth hw hnow hopen hfree

/-- **It holds after any calls at times that do not fall.** -/
theorem sound_after (hl : 1 ≤ limit) (hwidth : 0 < width) (ht : times.Pairwise (· ≤ ·)) :
    Sound limit width times (after limit width times) := by
  induction times using List.reverseRecOn with
  | nil => exact ⟨nofun, nofun, .nil, nofun, nofun, fun _ => rfl, nofun⟩
  | append_singleton times now ih =>
    obtain ⟨ht, -, hnow⟩ := List.pairwise_append.mp ht
    rw [after_concat]
    exact (ih ht).step hl hwidth fun t hm => hnow t hm now (List.mem_singleton_self now)

omit [IsStrictOrderedRing τ] in
/-- **A call is denied exactly when the current window is not over and the limit has been
allowed since its start.** -/
theorem Sound.windowAfter_eq_none_iff (hs : Sound limit width times h) :
    windowAfter limit width h.window now = none ↔ ∃ w, h.window = some w ∧
      now - w.startedAt < width ∧ h.allowed.countP (w.startedAt ≤ ·) = limit := by
  rcases windowAfter_cases limit width now h.window with
    ⟨ha, hover⟩ | ⟨w, hw, hopen, hlimit⟩
  · rw [ha]
    refine ⟨nofun, ?_⟩
    rintro ⟨w, hw, hopen, -⟩
    exact absurd hopen (not_lt.mpr (hover w hw))
  · have hc := hs.current w hw
    rcases hlimit with ⟨hfull, hd⟩ | ⟨hfree, ha⟩
    · rw [hd]
      exact ⟨fun _ => ⟨w, hw, hopen, hc.counted.trans (Nat.le_antisymm hc.bounded hfull)⟩,
        fun _ => rfl⟩
    · rw [ha]
      refine ⟨nofun, ?_⟩
      rintro ⟨w', hw', -, hcount⟩
      obtain rfl := Option.some.inj (hw.symm.trans hw')
      rw [hc.counted] at hcount
      omega

/-! ## Intervals -/

/-- The windows that an interval of one width meets. -/
def met (h : WindowHistory τ) (width start : τ) : List τ :=
  h.starts.filter fun s => start < s + width ∧ s < start + width

/-- They are two at most: a third would stand two widths behind the first. -/
theorem Sound.length_met_le (hs : Sound limit width times h) :
    (h.met width start).length ≤ 2 := by
  have hmem (s : τ) (hm : s ∈ h.met width start) : start < s + width ∧ s < start + width :=
    of_decide_eq_true (List.mem_filter.mp hm).2
  have hapart : (h.met width start).Pairwise fun s s' => s + width ≤ s' := hs.apart.filter _
  match hmet : h.met width start with
  | [] => exact Nat.zero_le 2
  | [_] => exact Nat.le_succ 1
  | [_, _] => exact Nat.le_refl 2
  | s₁ :: s₂ :: s₃ :: rest =>
    rw [hmet] at hapart hmem
    obtain ⟨h₁, h₂⟩ := List.pairwise_cons.mp hapart
    have h₁₂ := h₁ s₂ List.mem_cons_self
    have h₂₃ := (List.pairwise_cons.mp h₂).1 s₃ List.mem_cons_self
    have hfirst := (hmem s₁ List.mem_cons_self).1
    have hthird := (hmem s₃ (.tail _ (.tail _ (.head _)))).2
    linarith

omit [IsStrictOrderedRing τ] in
/-- What is allowed in an interval is allowed in the windows it meets. -/
theorem Sound.allowedIn_le_met (hs : Sound limit width times h) :
    h.allowedIn width start ≤ (h.met width start).length * limit := by
  refine (List.countP_mono_left fun t ht hin => ?_).trans
    (countP_any_le (h.met width start) fun s hm => hs.bounded s (List.mem_filter.mp hm).1)
  obtain ⟨hfrom, hto⟩ := of_decide_eq_true hin
  obtain ⟨s, hm, hst, hts⟩ := hs.within t ht
  rw [List.any_eq_true]
  refine ⟨s, List.mem_filter.mpr ⟨hm, decide_eq_true ⟨?_, ?_⟩⟩, decide_eq_true ⟨hst, hts⟩⟩
  · exact hfrom.trans_lt hts
  · exact hst.trans_lt hto

/-- **In an interval of one width at most twice the limit is allowed.** -/
theorem Sound.allowedIn_le (hs : Sound limit width times h) :
    h.allowedIn width start ≤ 2 * limit :=
  hs.allowedIn_le_met.trans (Nat.mul_le_mul_right limit hs.length_met_le)

/-! ## Calls at any times -/

/-- What holds after calls at times that may fall: a caller reads the clock before it
calls. -/
structure Spaced (limit : Nat) (width : τ) (times : List τ) (h : WindowHistory τ) : Prop where
  opened : h.starts ⊆ times
  apart : h.starts.Pairwise fun s s' => s + width ≤ s'
  idle : h.window = none → h.starts = [] ∧ h.allowed = []
  latest : ∀ w, h.window = some w → w.startedAt ∈ h.starts ∧ ∀ s ∈ h.starts, s ≤ w.startedAt
  counted : ∀ w, h.window = some w → w.requests ≤ limit ∧ w.requests ≤ h.allowed.length ∧
    h.allowed.length + limit ≤ h.starts.length * limit + w.requests

/-- A call opens a window when the latest is over, or is counted in it, or denied. -/
theorem Spaced.step (hs : Spaced limit width times h) (hl : 1 ≤ limit) (hwidth : 0 < width)
    (now : τ) : Spaced limit width (times ++ [now]) (h.step limit width now) := by
  have hopened : h.starts ⊆ times ++ [now] := fun s hm => List.mem_append_left _ (hs.opened hm)
  rcases windowAfter_cases limit width now h.window with
    ⟨ha, hover⟩ | ⟨w, hw, -, ⟨-, hd⟩ | ⟨hfree, ha⟩⟩
  · have hend : ∀ s ∈ h.starts, s + width ≤ now := by
      intro s hm
      cases hw : h.window with
      | none =>
        rw [(hs.idle hw).1] at hm
        cases hm
      | some w =>
        have hlate := (hs.latest w hw).2 s hm
        have hlong := hover w hw
        linarith
    have hlength : h.allowed.length ≤ h.starts.length * limit := by
      cases hw : h.window with
      | none => simp [(hs.idle hw).2]
      | some w =>
        obtain ⟨hle, -, hcount⟩ := hs.counted w hw
        omega
    have hnew : now ∉ h.starts := fun hm => by
      have := hend now hm
      linarith
    rw [step_allowed ha, if_neg hnew]
    refine ⟨?_, ?_, nofun, fun w' hw' => ?_, fun w' hw' => ?_⟩
    · exact List.append_subset.mpr ⟨hopened, List.subset_append_right _ _⟩
    · exact List.pairwise_append.mpr ⟨hs.apart, List.pairwise_singleton _ _, fun s hm s' hm' =>
        List.mem_singleton.mp hm' ▸ hend s hm⟩
    · cases hw'
      refine ⟨by simp, fun s hm => ?_⟩
      rcases List.mem_append.mp hm with hm | hm
      · exact (le_add_of_nonneg_right hwidth.le).trans (hend s hm)
      · exact le_of_eq (List.mem_singleton.mp hm)
    · cases hw'
      simp only [List.length_append, List.length_singleton, Nat.add_mul]
      omega
  · rw [step_denied hd]
    exact ⟨hopened, hs.apart, hs.idle, hs.latest, hs.counted⟩
  · obtain ⟨hstarted, hlate⟩ := hs.latest w hw
    obtain ⟨-, hused, hcount⟩ := hs.counted w hw
    rw [step_allowed ha, if_pos hstarted]
    refine ⟨hopened, hs.apart, nofun, fun w' hw' => ?_, fun w' hw' => ?_⟩
    · cases hw'
      exact ⟨hstarted, hlate⟩
    · cases hw'
      refine ⟨hfree, ?_⟩
      simp only [List.length_append, List.length_singleton]
      omega

omit [IsStrictOrderedRing τ] in
/-- What is denied has had its limit. -/
theorem Spaced.le_of_denied (hs : Spaced limit width times h)
    (hd : windowAfter limit width h.window now = none) : limit ≤ h.allowed.length := by
  rcases windowAfter_cases limit width now h.window with
    ⟨ha, -⟩ | ⟨w, hw, -, ⟨hfull, -⟩ | ⟨-, ha⟩⟩
  · rw [hd] at ha
    cases ha
  · exact hfull.trans (hs.counted w hw).2.1
  · rw [hd] at ha
    cases ha

theorem spaced_after (hl : 1 ≤ limit) (hwidth : 0 < width) (times : List τ) :
    Spaced limit width times (after limit width times) := by
  induction times using List.reverseRecOn with
  | nil => exact ⟨nofun, .nil, fun _ => ⟨rfl, rfl⟩, nofun, nofun⟩
  | append_singleton times now ih =>
    rw [after_concat]
    exact ih.step hl hwidth now

omit [IsStrictOrderedRing τ] in
theorem Spaced.length_allowed_le (hs : Spaced limit width times h) :
    h.allowed.length ≤ h.starts.length * limit := by
  cases hw : h.window with
  | none => simp [(hs.idle hw).2]
  | some w =>
    obtain ⟨hle, -, hcount⟩ := hs.counted w hw
    omega

/-- Points that stand apart between two bounds. -/
theorem length_mul_le_of_apart {first last : τ} (hle : first ≤ last) (hwidth : 0 < width) :
    ∀ points : List τ, points.Pairwise (fun s s' => s + width ≤ s') →
      (∀ s ∈ points, first ≤ s ∧ s ≤ last) → points.length * width ≤ last - first + width
  | [], _, _ => by
    simp only [List.length_nil, Nat.cast_zero, zero_mul]
    linarith
  | [s], _, _ => by
    simp only [List.length_singleton, Nat.cast_one, one_mul]
    linarith
  | s :: s' :: points, hapart, hin => by
    obtain ⟨hnext, hrest⟩ := List.pairwise_cons.mp hapart
    have hlast : s + width ≤ last :=
      (hnext s' List.mem_cons_self).trans (hin s' (.tail _ List.mem_cons_self)).2
    have ih := length_mul_le_of_apart hlast hwidth (s' :: points) hrest fun x hx =>
      ⟨hnext x hx, (hin x (.tail _ hx)).2⟩
    have hfirst := (hin s List.mem_cons_self).1
    rw [List.length_cons, Nat.cast_add, Nat.cast_one, add_mul, one_mul]
    linarith

/-- **Whatever the order of the calls, the limit is allowed once for each width of the
time between the first and the last, and once more.** -/
theorem Spaced.length_allowed_le_of_bounds [FloorSemiring τ] (hs : Spaced limit width times h)
    {first last : τ} (hle : first ≤ last) (hwidth : 0 < width)
    (hin : ∀ t ∈ times, first ≤ t ∧ t ≤ last) :
    h.allowed.length ≤ limit * (⌊(last - first) / width⌋₊ + 1) := by
  have hmul := length_mul_le_of_apart hle hwidth h.starts hs.apart fun s hm => hin s (hs.opened hm)
  have hstarts : h.starts.length ≤ ⌊(last - first) / width⌋₊ + 1 := by
    rw [← Nat.sub_le_iff_le_add]
    refine Nat.le_floor ?_
    rw [le_div_iff₀ hwidth]
    rcases Nat.eq_zero_or_pos h.starts.length with hzero | hpos
    · rw [hzero]
      simpa using hle
    · rw [Nat.cast_sub hpos, Nat.cast_one, sub_mul, one_mul]
      linarith
  calc h.allowed.length ≤ h.starts.length * limit := hs.length_allowed_le
    _ ≤ (⌊(last - first) / width⌋₊ + 1) * limit := Nat.mul_le_mul_right limit hstarts
    _ = limit * (⌊(last - first) / width⌋₊ + 1) := Nat.mul_comm _ _

end WindowHistory

end AgenticDelivery.Data
