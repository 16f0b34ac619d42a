import AgenticDelivery.Data.Dict
import AgenticDelivery.Data.FixedWindow
import Mathlib.Algebra.Field.Rat
import Mathlib.Algebra.Order.Ring.Rat
import Mathlib.Data.Rat.Floor

/-! # The rate limiter

`InMemoryRateLimiter`: one fixed window for each subject. What the limiter does to
a subject is what a fixed window does to the calls of that subject alone. -/
namespace AgenticDelivery.Api
open AgenticDelivery.Data

/-- `_RateWindow` -/
abbrev RateWindow := Window ℚ

structure InMemoryRateLimiter where
  limit : Nat
  windowSeconds : Nat
  windows : Dict String RateWindow := .empty

namespace InMemoryRateLimiter
variable (self : InMemoryRateLimiter)

/-- `allow`, at the clock value `now`. -/
def allow (now : ℚ) (subject : String) : Bool × InMemoryRateLimiter :=
  let opened : InMemoryRateLimiter :=
    { self with windows := self.windows.set subject { startedAt := now, requests := 1 } }
  match self.windows.get? subject with
  | none => (true, opened)
  | some window =>
    if self.windowSeconds ≤ now - window.startedAt then (true, opened)
    else if self.limit ≤ window.requests then (false, self)
    else
      (true, { self with
        windows := self.windows.set subject { window with requests := window.requests + 1 } })

/-- The window of the subject admits the call or not. -/
theorem allow_eq (now : ℚ) (subject : String) : self.allow now subject =
    match windowAfter self.limit (self.windowSeconds : ℚ) (self.windows.get? subject) now with
    | none => (false, self)
    | some window => (true, { self with windows := self.windows.set subject window }) := by
  unfold allow windowAfter
  cases self.windows.get? subject with
  | none => rfl
  | some window =>
    dsimp only
    split
    · rfl
    · split <;> rfl

/-- There is room for `k` calls of the subject, whatever the clock shows. -/
def Room (subject : String) (k : Nat) : Prop :=
  k ≤ self.limit ∧ ∀ window, self.windows.get? subject = some window →
    window.requests + k ≤ self.limit

/-- There is room for calls of these subjects. -/
def Rooms (subjects : List String) : Prop :=
  ∀ subject ∈ subjects, self.Room subject (subjects.count subject)

variable {self} {subject subject' : String} {k : Nat}

/-- A call that there is room for is let through, and takes its room alone. -/
theorem Room.allow (h : self.Room subject (k + 1)) (now : ℚ) :
    (self.allow now subject).1 = true ∧ (self.allow now subject).2.Room subject k := by
  obtain ⟨hlimit, hwindow⟩ := h
  have opened : ∀ window : RateWindow, window.requests + k ≤ self.limit →
      Room { self with windows := self.windows.set subject window } subject k := by
    intro window hle
    refine ⟨Nat.le_of_succ_le hlimit, fun window' hw' => ?_⟩
    rw [Dict.get?_set_self] at hw'
    cases hw'
    exact hle
  unfold InMemoryRateLimiter.allow
  cases hw : self.windows.get? subject with
  | none => exact ⟨rfl, opened ⟨now, 1⟩ (by rw [Nat.add_comm]; exact hlimit)⟩
  | some window =>
    have hle := hwindow window hw
    dsimp only
    split
    · exact ⟨rfl, opened ⟨now, 1⟩ (by rw [Nat.add_comm]; exact hlimit)⟩
    · rw [if_neg (by omega)]
      exact ⟨rfl, opened _ (by dsimp only; omega)⟩

/-- The calls of the others leave the room as it is. -/
theorem Room.other (h : self.Room subject k) (hne : subject ≠ subject') (now : ℚ) :
    (self.allow now subject').2.Room subject k := by
  rw [allow_eq]
  cases windowAfter self.limit (self.windowSeconds : ℚ) (self.windows.get? subject') now with
  | none => exact h
  | some window =>
    refine ⟨h.1, fun window' hw' => ?_⟩
    rw [Dict.get?_set_ne _ hne] at hw'
    exact h.2 window' hw'

/-- The first of the calls is let through, and there is room for the others. -/
theorem Rooms.allow {subjects : List String} (h : self.Rooms (subject :: subjects)) (now : ℚ) :
    (self.allow now subject).1 = true ∧ (self.allow now subject).2.Rooms subjects := by
  have hfirst := h subject List.mem_cons_self
  rw [List.count_cons_self] at hfirst
  obtain ⟨hallowed, hroom⟩ := hfirst.allow now
  refine ⟨hallowed, fun other hm => ?_⟩
  by_cases heq : other = subject
  · rw [heq]
    exact hroom
  · have hother := h other (.tail _ hm)
    rw [List.count_cons_of_ne (Ne.symm heq)] at hother
    exact hother.other heq now

end InMemoryRateLimiter

/-! ## Runs -/

structure RateCall where
  now : ℚ
  subject : String
  deriving DecidableEq

/-- A limiter, and the calls with their answers. -/
structure RateRun where
  limiter : InMemoryRateLimiter
  answered : List (RateCall × Bool) := []

namespace RateRun

def step (run : RateRun) (call : RateCall) : RateRun where
  limiter := (run.limiter.allow call.now call.subject).2
  answered := run.answered ++ [(call, (run.limiter.allow call.now call.subject).1)]

/-- The calls, one after the other, on a new limiter. -/
def after (limit windowSeconds : Nat) (calls : List RateCall) : RateRun :=
  calls.foldl step { limiter := { limit, windowSeconds } }

/-- When calls of the subject were allowed. -/
def allowedTimes (run : RateRun) (subject : String) : List ℚ :=
  (run.answered.filter fun a => a.2 ∧ a.1.subject = subject).map fun a => a.1.now

/-- The answers to the subject. -/
def answersTo (run : RateRun) (subject : String) : List Bool :=
  (run.answered.filter fun a => a.1.subject = subject).map Prod.snd

end RateRun

/-- When the subject calls. -/
def timesOf (calls : List RateCall) (subject : String) : List ℚ :=
  (calls.filter fun call => call.subject = subject).map RateCall.now

/-! ## One subject -/

/-- What the limiter does to the subject is what a fixed window does to its calls. -/
structure Tracks (limit windowSeconds : Nat) (run : RateRun) (subject : String)
    (h : WindowHistory ℚ) : Prop where
  limit : run.limiter.limit = limit
  windowSeconds : run.limiter.windowSeconds = windowSeconds
  window : run.limiter.windows.get? subject = h.window
  allowed : run.allowedTimes subject = h.allowed

variable {limit windowSeconds : Nat} {run : RateRun} {subject : String} {h : WindowHistory ℚ}
  {calls : List RateCall} {call : RateCall}

theorem RateRun.after_concat (limit windowSeconds : Nat) (calls : List RateCall)
    (call : RateCall) : RateRun.after limit windowSeconds (calls ++ [call]) =
      (RateRun.after limit windowSeconds calls).step call := by
  rw [RateRun.after, List.foldl_append]
  rfl

theorem map_filter_concat {α β : Type} (p : α → Prop) [DecidablePred p] (f : α → β) (l : List α)
    (a : α) : ((l ++ [a]).filter p).map f =
      (l.filter p).map f ++ if p a then [f a] else [] := by
  rw [List.filter_append, List.map_append]
  by_cases hp : p a <;> simp [hp]

theorem RateRun.allowedTimes_step (run : RateRun) (call : RateCall) (subject : String) :
    (run.step call).allowedTimes subject = run.allowedTimes subject ++
      if (run.limiter.allow call.now call.subject).1 ∧ call.subject = subject then [call.now]
        else [] :=
  map_filter_concat _ _ _ _

theorem RateRun.answersTo_step (run : RateRun) (call : RateCall) (subject : String) :
    (run.step call).answersTo subject = run.answersTo subject ++
      if call.subject = subject then [(run.limiter.allow call.now call.subject).1] else [] :=
  map_filter_concat _ _ _ _

theorem timesOf_concat (calls : List RateCall) (call : RateCall) (subject : String) :
    timesOf (calls ++ [call]) subject =
      timesOf calls subject ++ if call.subject = subject then [call.now] else [] :=
  map_filter_concat _ _ _ _

/-- The answer to the subject is the window's. -/
theorem Tracks.answer (ht : Tracks limit windowSeconds run subject h) (now : ℚ) :
    (run.limiter.allow now subject).1 =
      (windowAfter limit (windowSeconds : ℚ) h.window now).isSome := by
  rw [run.limiter.allow_eq, ht.limit, ht.windowSeconds, ht.window]
  cases windowAfter limit (windowSeconds : ℚ) h.window now <;> rfl

/-- A call leaves the bounds alone, and the windows of all other subjects. -/
theorem InMemoryRateLimiter.allow_frame (self : InMemoryRateLimiter) (now : ℚ)
    (subject : String) :
    (self.allow now subject).2.limit = self.limit ∧
      (self.allow now subject).2.windowSeconds = self.windowSeconds ∧
      ∀ other, other ≠ subject →
        (self.allow now subject).2.windows.get? other = self.windows.get? other := by
  rw [allow_eq]
  cases windowAfter self.limit (self.windowSeconds : ℚ) (self.windows.get? subject) now with
  | none => exact ⟨rfl, rfl, fun _ _ => rfl⟩
  | some window => exact ⟨rfl, rfl, fun other hne => Dict.get?_set_ne _ hne _⟩

/-- A call of the subject is a call on its window. -/
theorem Tracks.own (ht : Tracks limit windowSeconds run subject h)
    (hc : call.subject = subject) :
    Tracks limit windowSeconds (run.step call) subject (h.step limit windowSeconds call.now) := by
  subst hc
  obtain ⟨hl, hw, -⟩ := run.limiter.allow_frame call.now call.subject
  have hallow := run.limiter.allow_eq call.now call.subject
  rw [ht.limit, ht.windowSeconds, ht.window] at hallow
  have hallowed := run.allowedTimes_step call call.subject
  rw [ht.allowed, hallow] at hallowed
  refine ⟨hl.trans ht.limit, hw.trans ht.windowSeconds, ?_, ?_⟩
  · rw [RateRun.step, hallow, WindowHistory.step]
    cases windowAfter limit (windowSeconds : ℚ) h.window call.now with
    | none => exact ht.window
    | some window => exact Dict.get?_set_self _ _ _
  · rw [hallowed, WindowHistory.step]
    cases windowAfter limit (windowSeconds : ℚ) h.window call.now with
    | none => simp
    | some window => simp

/-- A call of another subject leaves the window alone. -/
theorem Tracks.other (ht : Tracks limit windowSeconds run subject h)
    (hc : call.subject ≠ subject) : Tracks limit windowSeconds (run.step call) subject h := by
  obtain ⟨hl, hw, hother⟩ := run.limiter.allow_frame call.now call.subject
  refine ⟨hl.trans ht.limit, hw.trans ht.windowSeconds,
    (hother subject (Ne.symm hc)).trans ht.window, ?_⟩
  rw [RateRun.allowedTimes_step, ht.allowed, if_neg fun h => hc h.2, List.append_nil]

/-- **A subject is limited as if it were alone.** -/
theorem tracks_after (limit windowSeconds : Nat) (calls : List RateCall) (subject : String) :
    Tracks limit windowSeconds (.after limit windowSeconds calls) subject
      (.after limit windowSeconds (timesOf calls subject)) := by
  induction calls using List.reverseRecOn with
  | nil => exact ⟨rfl, rfl, rfl, rfl⟩
  | append_singleton calls call ih =>
    rw [RateRun.after_concat, timesOf_concat]
    by_cases hc : call.subject = subject
    · rw [if_pos hc, WindowHistory.after_concat]
      exact ih.own hc
    · rw [if_neg hc, List.append_nil]
      exact ih.other hc

/-- The calls of one subject do not know of the others. -/
theorem timesOf_filter (calls : List RateCall) (subject : String) :
    timesOf (calls.filter fun call => call.subject = subject) subject = timesOf calls subject := by
  rw [timesOf, List.filter_filter, timesOf]
  simp

/-- **The answers to a subject are those it gets alone.** -/
theorem answersTo_alone (limit windowSeconds : Nat) (calls : List RateCall) (subject : String) :
    (RateRun.after limit windowSeconds calls).answersTo subject =
      (RateRun.after limit windowSeconds
        (calls.filter fun call => call.subject = subject)).answersTo subject := by
  induction calls using List.reverseRecOn with
  | nil => rfl
  | append_singleton calls call ih =>
    rw [RateRun.after_concat, RateRun.answersTo_step, List.filter_append, ih]
    by_cases hc : call.subject = subject
    · subst hc
      have hall := tracks_after limit windowSeconds calls call.subject
      have hown := tracks_after limit windowSeconds
        (calls.filter fun other => other.subject = call.subject) call.subject
      rw [timesOf_filter] at hown
      rw [List.filter_singleton, decide_eq_true rfl, cond_true, RateRun.after_concat,
        RateRun.answersTo_step, hall.answer, hown.answer]
    · rw [if_neg hc, List.filter_singleton, decide_eq_false hc, cond_false, List.append_nil,
        List.append_nil]

/-! ## Calls at any times -/

/-- The limit is allowed to a subject once for each window's length of the time between
the first and the last call, and once more, in whatever order the calls come. -/
theorem RateRun.length_allowedTimes_le (hl : 1 ≤ limit) (hw : 1 ≤ windowSeconds)
    (subject : String) {first last : ℚ} (hle : first ≤ last)
    (hin : ∀ call ∈ calls, first ≤ call.now ∧ call.now ≤ last) :
    ((RateRun.after limit windowSeconds calls).allowedTimes subject).length ≤
      limit * (⌊(last - first) / windowSeconds⌋₊ + 1) := by
  have hwidth : (0 : ℚ) < windowSeconds := Nat.cast_pos.mpr hw
  rw [(tracks_after limit windowSeconds calls subject).allowed]
  refine (WindowHistory.spaced_after hl hwidth _).length_allowed_le_of_bounds hle hwidth ?_
  intro t ht
  obtain ⟨call, hcall, rfl⟩ := List.mem_map.mp ht
  exact hin call (List.mem_filter.mp hcall).1

/-- Calls that come late with an early time: more than twice the limit of two is allowed
from the first second. -/
example : ((RateRun.after 2 1 [⟨0, "a"⟩, ⟨0, "a"⟩, ⟨1, "a"⟩, ⟨1 / 2, "a"⟩, ⟨2, "a"⟩, ⟨1 / 2, "a"⟩,
    ⟨3, "a"⟩, ⟨1 / 2, "a"⟩]).allowedTimes "a").countP (fun t => 0 ≤ t ∧ t < 1) = 5 := by
  decide +kernel

/-- A subject is denied only when it has been allowed the limit itself. -/
theorem RateRun.le_length_allowedTimes (hl : 1 ≤ limit) (hw : 1 ≤ windowSeconds)
    (h : (call, false) ∈ (RateRun.after limit windowSeconds calls).answered) :
    limit ≤ ((RateRun.after limit windowSeconds calls).allowedTimes call.subject).length := by
  have hwidth : (0 : ℚ) < windowSeconds := Nat.cast_pos.mpr hw
  induction calls using List.reverseRecOn with
  | nil => cases h
  | append_singleton calls last ih =>
    rw [RateRun.after_concat] at h ⊢
    rw [RateRun.allowedTimes_step, List.length_append]
    rcases List.mem_append.mp h with h | h
    · exact (ih h).trans (Nat.le_add_right _ _)
    · obtain ⟨rfl, hdenied⟩ := Prod.mk.inj (List.mem_singleton.mp h)
      have htracks := tracks_after limit windowSeconds calls call.subject
      rw [htracks.answer, eq_comm, Option.isSome_eq_false_iff, Option.isNone_iff_eq_none] at hdenied
      rw [htracks.allowed]
      exact ((WindowHistory.spaced_after hl hwidth _).le_of_denied hdenied).trans
        (Nat.le_add_right _ _)

/-! ## The law -/

/-- What the limiter does to any calls. -/
structure RateLaw (limit windowSeconds : Nat) (calls : List RateCall) : Prop where
  /-- In a window's length twice the limit is allowed at most. -/
  sliding : ∀ subject (start : ℚ),
    ((RateRun.after limit windowSeconds calls).allowedTimes subject).countP
      (fun t => start ≤ t ∧ t < start + windowSeconds) ≤ 2 * limit
  /-- From the start of a window on, the limit. -/
  aligned : ∀ subject before, before <+: calls → ∀ window : RateWindow,
    (RateRun.after limit windowSeconds before).limiter.windows.get? subject = some window →
    ((RateRun.after limit windowSeconds calls).allowedTimes subject).countP
      (fun t => window.startedAt ≤ t ∧ t < window.startedAt + windowSeconds) ≤ limit
  /-- A call is denied when the limit has been allowed in the current window. -/
  denied : ∀ before call, before ++ [call] <+: calls →
    (((RateRun.after limit windowSeconds before).limiter.allow call.now call.subject).1 = false ↔
      ∃ window : RateWindow, (RateRun.after limit windowSeconds before).limiter.windows.get?
          call.subject = some window ∧
        call.now - window.startedAt < windowSeconds ∧
        ((RateRun.after limit windowSeconds before).allowedTimes call.subject).countP
          (window.startedAt ≤ ·) = limit)
  alone : ∀ subject, (RateRun.after limit windowSeconds calls).answersTo subject =
    (RateRun.after limit windowSeconds
      (calls.filter fun call => call.subject = subject)).answersTo subject

theorem pairwise_timesOf (ht : (calls.map RateCall.now).Pairwise (· ≤ ·)) (subject : String) :
    (timesOf calls subject).Pairwise (· ≤ ·) :=
  ht.sublist (List.filter_sublist.map _)

theorem timesOf_before {before : List RateCall} (h : before <+: calls) (subject : String) :
    timesOf before subject <+: timesOf calls subject :=
  (h.filter _).map _

/-- **The rate law holds for any calls at times that do not fall.** -/
theorem rateLaw (hl : 1 ≤ limit) (hw : 1 ≤ windowSeconds)
    (ht : (calls.map RateCall.now).Pairwise (· ≤ ·)) : RateLaw limit windowSeconds calls := by
  have hwidth : (0 : ℚ) < windowSeconds := Nat.cast_pos.mpr hw
  have hsound (subject : String) {before : List RateCall} (hb : before <+: calls) :=
    WindowHistory.sound_after hl hwidth
      ((pairwise_timesOf ht subject).sublist (timesOf_before hb subject).sublist)
  have htracks := tracks_after limit windowSeconds
  exact
    { sliding := fun subject start => by
        rw [(htracks calls subject).allowed]
        exact (hsound subject (List.prefix_refl calls)).allowedIn_le
      aligned := fun subject before hb window hwindow => by
        rw [(htracks calls subject).allowed]
        rw [(htracks before subject).window] at hwindow
        have hstart := ((hsound subject hb).current window hwindow).started
        obtain ⟨more, hmore⟩ := timesOf_before hb subject
        refine (hsound subject (List.prefix_refl calls)).bounded window.startedAt ?_
        rw [← hmore]
        exact WindowHistory.starts_subset _ _ _ _ hstart
      denied := fun before call hb => by
        have htrack := htracks before call.subject
        have hbefore := hsound call.subject ((List.prefix_append before [call]).trans hb)
        rw [htrack.answer, htrack.window, htrack.allowed, Option.isSome_eq_false_iff,
          Option.isNone_iff_eq_none]
        exact hbefore.windowAfter_eq_none_iff
      alone := answersTo_alone limit windowSeconds calls }

/-- Two subjects share a limiter of two calls in ten seconds. -/
def sharedCalls : List RateCall :=
  [⟨100, "a"⟩, ⟨100, "b"⟩, ⟨104, "a"⟩, ⟨109, "a"⟩, ⟨110, "a"⟩, ⟨112, "b"⟩]

theorem rateLaw_sharedCalls : RateLaw 2 10 sharedCalls ∧
    (RateRun.after 2 10 sharedCalls).answersTo "a" = [true, true, false, true] :=
  ⟨rateLaw (by decide) (by decide) (by decide), by decide +kernel⟩

end AgenticDelivery.Api
