import Mathlib.Algebra.Order.Floor.Semifield
import AgenticDelivery.Api.HttpRules

/-! # How many mutations get through

A request reads the clock of the limiter before it takes the limiter's lock, so
concurrent requests may come to the limiter in another order than they have read the
clock, and two windows' worth of them is no bound for the length of a window. What holds
of all interleavings is a bound over the whole run. -/
namespace AgenticDelivery.Api
open AgenticDelivery.Atomic AgenticDelivery.Data AgenticDelivery.Governance AgenticDelivery.Runtime
open Program

variable {ν : Type} {env : Environment} {settings : ApiSettings} {durations : Durations ν}
  {c : HttpConfig ν} {subject : String}

/-! ## What the limiter has answered -/

@[simp] def admissionOf : HttpEvent ν → Option (RateCall × Bool)
  | ⟨.allow now subject, allowed⟩ => some (⟨now, subject⟩, allowed)
  | _ => none

/-- What the limiter has answered to a request. -/
def admissions (log : List (HttpEvent ν)) : List (RateCall × Bool) := log.filterMap admissionOf

/-- The limiter has let the request of the subject through. -/
def admitted (subject : String) (t : HttpThread ν) : Bool :=
  (admissions t.log).any fun a => a.2 ∧ a.1.subject = subject

/-- A request asks the limiter once. -/
theorem length_admissions_le {request : HttpRequest ν} {log : List (HttpEvent ν)}
    (h : Judged (requestRules durations request) log) : (admissions log).length ≤ 1 := by
  induction h with
  | nil => exact Nat.zero_le 1
  | @snoc log op r _ fits _ ih =>
    rw [admissions, List.filterMap_append, List.length_append]
    cases op with
    | allow now subject =>
      rw [fits.2.1]
      exact Nat.le_refl 1
    | _ => exact ih

/-- The limiter has answered what the requests were told. -/
theorem Served.admissions_perm (hc : Served env settings durations c) :
    c.state.rate.answered.Perm (c.threads.flatMap fun t => admissions t.log) := by
  obtain ⟨now, utc, monotonic, h⟩ := hc
  refine h.journal (fun s => s.rate.answered) admissionOf rfl rfl (fun tid op s => ?_)
    fun _ _ => rfl
  cases op with
  | allow => rfl
  | _ => exact (List.append_nil _).symm

theorem countP_flatMap_of_le {α β : Type} (p : β → Bool) (f : α → List β) :
    ∀ l : List α, (∀ x ∈ l, (f x).length ≤ 1) →
      (l.flatMap f).countP p = l.countP fun x => (f x).any p
  | [], _ => rfl
  | x :: l, h => by
    have ih := countP_flatMap_of_le p f l fun y hy => h y (.tail _ hy)
    have hx := h x List.mem_cons_self
    rw [List.flatMap_cons, List.countP_append, ih, List.countP_cons, Nat.add_comm]
    congr 1
    match hf : f x with
    | [] => rfl
    | [y] => simp [List.countP_singleton]
    | _ :: _ :: _ =>
      rw [hf] at hx
      simp at hx

/-- How often the subject was allowed, and how many of its requests are through. -/
theorem Served.length_allowedTimes (hc : Served env settings durations c) (subject : String) :
    (c.state.rate.allowedTimes subject).length = c.threads.countP (admitted subject) := by
  rw [RateRun.allowedTimes, List.length_map, ← List.countP_eq_length_filter,
    hc.admissions_perm.countP_eq]
  refine countP_flatMap_of_le _ _ _ fun t ht => ?_
  obtain ⟨tid, ht⟩ := List.getElem?_of_mem ht
  exact length_admissions_le (hc.keeps ht).1

/-- The limiter is as its answers have made it. -/
theorem Served.rate_eq (hc : Served env settings durations c) :
    c.state.rate = .after settings.rateLimitRequests settings.rateLimitWindowSeconds
      (c.state.rate.answered.map Prod.fst) := by
  obtain ⟨now, utc, monotonic, h⟩ := hc
  induction h with
  | refl => rfl
  | @step c₁ _ m ih =>
    rcases (application env settings durations).step_cases c₁ m with
      he | ⟨call, he⟩ | ⟨tid, t, op, next, -, -, he⟩ | ⟨t, he⟩ <;> rw [he]
    · exact ih
    · exact ih
    · cases op with
      | allow now subject =>
        change c₁.state.rate.step ⟨now, subject⟩ = .after _ _
          ((c₁.state.rate.answered ++ [_]).map Prod.fst)
        rw [List.map_append, List.map_singleton, RateRun.after_concat, ← ih]
      | _ => exact ih
    · exact ih

/-! ## The clock -/

/-- The clock of the limiter does not go back. -/
def Onward (c : HttpConfig ν) : Move (HttpRequest ν) ((Datetime × Datetime) × ℚ) → Prop
  | .tick t => c.state.monotonic ≤ t.2
  | _ => True

/-- All readings of the clock are between the first and the present one. -/
structure Read (first : ℚ) (c : HttpConfig ν) : Prop where
  begun : first ≤ c.state.monotonic
  readings : ∀ t ∈ c.threads, ∀ now, (⟨.monotonic, now⟩ : HttpEvent ν) ∈ t.log →
    first ≤ now ∧ now ≤ c.state.monotonic
  answered : ∀ a ∈ c.state.rate.answered, first ≤ a.1.now ∧ a.1.now ≤ c.state.monotonic

theorem Read.onward {first : ℚ} {now utc : Datetime}
    (h : (application env settings durations).ReachesVia Onward
      (started settings now utc first) c) : Read first c := by
  refine h.induct ?_ ?_ ?_ ?_
  · exact ⟨le_rfl, fun _ ht => by (cases ht), fun _ ha => by cases ha⟩
  · intro c₁ call _ ih
    refine ⟨ih.begun, fun t ht now hm => ?_, ih.answered⟩
    rcases List.mem_append.mp ht with ht | ht
    · exact ih.readings t ht now hm
    · rw [List.mem_singleton.mp ht] at hm
      cases hm
  · intro c₁ tid t op next h₁ _ ih ht hr
    have hclock : ((application env settings durations).advance c₁ tid t op next).state.monotonic =
        c₁.state.monotonic := by cases op <;> rfl
    refine ⟨hclock ▸ ih.begun, fun t' ht' now hm => ?_, fun a ha => ?_⟩ <;> rw [hclock]
    · obtain ⟨i, ht'⟩ := List.getElem?_of_mem ht'
      rcases System.advance_threads ht ht' with ⟨-, rfl⟩ | ⟨-, ht'⟩
      · rcases List.mem_append.mp hm with hm | hm
        · exact ih.readings t (List.mem_of_getElem? ht) now hm
        · cases List.mem_singleton.mp hm
          exact ⟨ih.begun, le_rfl⟩
      · exact ih.readings t' (List.mem_of_getElem? ht') now hm
    · cases op with
      | allow now subject =>
        -- the clock value of the call is the one the request has read
        rcases List.mem_append.mp ha with ha | ha
        · exact ih.answered a ha
        · rw [List.mem_singleton.mp ha]
          have hk := (Served.keeps ⟨_, _, _, h₁.reaches⟩ ht).2
          rw [hr] at hk
          refine ih.readings t (List.mem_of_getElem? ht) now ?_
          rw [hk.1.2.1]
          exact List.mem_cons_self
      | _ => exact ih.answered a ha
  · intro c₁ t _ hforward ih
    exact ⟨ih.begun.trans hforward, fun u hu now hm =>
      ⟨(ih.readings u hu now hm).1, (ih.readings u hu now hm).2.trans hforward⟩, fun a ha =>
      ⟨(ih.answered a ha).1, (ih.answered a ha).2.trans hforward⟩⟩

/-! ## The bound -/

/-- **A subject's mutations are limited, and by its own alone.** When the clock of the
limiter does not go back, then however the requests interleave: a mutation gets to the
service only when the limiter has let it through; of each subject it lets through at most
the limit for each window's length since the start, and once more; and whoever is told to
retry later has had the limit of requests let through. -/
theorem mutations_limited {now utc : Datetime} {monotonic : ℚ}
    (h : (application env settings durations).ReachesVia Onward
      (started settings now utc monotonic) c) :
    (∀ t ∈ c.threads, t.call.endpoint.method = "POST" →
      (∃ e ∈ t.log, httpEmbedding.event e ≠ none) →
      ∃ principal, t.call.principal = some principal ∧ admitted principal.subject t = true) ∧
    (∀ subject, c.threads.countP (admitted subject) ≤ settings.rateLimitRequests *
      (⌊(c.state.monotonic - monotonic) / settings.rateLimitWindowSeconds⌋₊ + 1)) ∧
    ∀ t ∈ c.threads, ∀ response problem, t.rest.returned = some response →
      response.body = .problem problem → problem.status = 429 →
      ∃ principal, t.call.principal = some principal ∧
        settings.rateLimitRequests ≤ c.threads.countP (admitted principal.subject) := by
  have hc : Served env settings durations c := ⟨_, _, _, h.reaches⟩
  have hread := Read.onward h
  refine ⟨fun t ht hpost => ?_, fun subject => ?_, fun t ht response problem hr hbody hstatus => ?_⟩
  · rintro ⟨⟨op, r⟩, he, hservice⟩
    obtain ⟨tid, ht⟩ := List.getElem?_of_mem ht
    obtain ⟨before, after, hlog⟩ := List.append_of_mem he
    obtain ⟨⟨-, hfits⟩, -⟩ := (hc.keeps ht).1.fits hlog
    cases op with
    | service op =>
      obtain ⟨principal, now, hp, hallow⟩ := hfits.2 hpost
      refine ⟨principal, hp, List.any_eq_true.mpr ⟨(⟨now, principal.subject⟩, true), ?_, by simp⟩⟩
      rw [admissions, hlog]
      exact List.mem_filterMap.mpr ⟨_, List.mem_append_left _ hallow, rfl⟩
    | _ => exact absurd rfl hservice
  · rw [← hc.length_allowedTimes, hc.rate_eq]
    refine RateRun.length_allowedTimes_le settings.requests_range.1 settings.window_range.1 subject
      hread.begun fun call hcall => ?_
    obtain ⟨a, ha, rfl⟩ := List.mem_map.mp hcall
    exact hread.answered a ha
  · obtain ⟨tid, ht⟩ := List.getElem?_of_mem ht
    obtain ⟨-, htold⟩ := System.ends_of_keeps (hc.keeps ht).2 (outcome_of_returned hr)
    rw [hbody] at htold
    obtain ⟨principal, now, hp, hm⟩ := htold hstatus
    have hdenied : ((⟨now, principal.subject⟩ : RateCall), false) ∈ c.state.rate.answered := by
      refine hc.admissions_perm.mem_iff.mpr (List.mem_flatMap.mpr ⟨t, List.mem_of_getElem? ht, ?_⟩)
      exact List.mem_filterMap.mpr ⟨_, hm, rfl⟩
    refine ⟨principal, hp, ?_⟩
    rw [hc.rate_eq] at hdenied
    rw [← hc.length_allowedTimes, hc.rate_eq]
    exact RateRun.le_length_allowedTimes settings.requests_range.1 settings.window_range.1 hdenied

/-! ### Two requests -/

instance (c : HttpConfig ν) :
    ∀ m, Decidable (Onward c m)
  | .spawn _ | .act _ => .isTrue trivial
  | .tick t => inferInstanceAs (Decidable (c.state.monotonic ≤ t.2))

/-- One mutation in a minute. -/
def strictSettings : ApiSettings :=
  { localSettings with rateLimitRequests := 1, requests_range := by decide }

/-- The request of the examples is sent twice. -/
def sentTwice : List (Move (HttpRequest Int) ((Datetime × Datetime) × ℚ)) :=
  .spawn sampleHttpRequest :: List.replicate 10 (.act 0) ++
    .tick ((1, 1), 59) :: .spawn sampleHttpRequest :: List.replicate 3 (.act 1)

def Response.problemStatus (response : Response ν) : Option Int :=
  match response.body with
  | .problem problem => some problem.status
  | _ => none

/-- The application, after both. -/
def limitedRequest : HttpConfig Int :=
  (application sampleEnv strictSettings InMemoryOperationalTelemetry.wholeDurations).play
    (started strictSettings 0 0 0) sentTwice

/-- One gets through: the other is within its minute, and is told to retry later. -/
theorem mutations_limited_sentTwice :
    limitedRequest.threads.countP (admitted "local-requester") = 1 := by
  have hok : (application sampleEnv strictSettings
      InMemoryOperationalTelemetry.wholeDurations).Allows Onward (started strictSettings 0 0 0)
      sentTwice := by decide
  have hclock : limitedRequest.state.monotonic = 59 := by decide +kernel
  have h : (limitedRequest.threads[1]?.any fun t => t.call.principal = some localRequester ∧
      t.rest.returned.bind Response.problemStatus = some 429) = true := by decide +kernel
  obtain ⟨t, ht, h⟩ := (Option.any_eq_true _ _).mp h
  obtain ⟨hprincipal, hstatus⟩ := of_decide_eq_true h
  obtain ⟨response, hr, hstatus⟩ := Option.bind_eq_some_iff.mp hstatus
  obtain ⟨-, hbound, hlater⟩ := mutations_limited (System.ReachesVia.refl.play hok)
  refine Nat.le_antisymm ?_ ?_
  · have hle := hbound "local-requester"
    change _ ≤ 1 * (⌊(limitedRequest.state.monotonic - 0) / (60 : Nat)⌋₊ + 1) at hle
    rw [hclock] at hle
    norm_num at hle
    exact hle
  · unfold Response.problemStatus at hstatus
    split at hstatus
    · rename_i problem hbody
      obtain ⟨principal, hp, hle⟩ := hlater t (List.mem_of_getElem? ht) response problem hr hbody
        (Option.some.inj hstatus)
      cases hprincipal.symm.trans hp
      exact hle
    · cases hstatus

end AgenticDelivery.Api
