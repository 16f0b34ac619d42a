import Mathlib
import AgenticDelivery.Api.Telemetry

/-! # The aggregates of a snapshot

The totals of a telemetry snapshot agree with each other and with the requests that were
recorded. That a decimal key is read back as its code is a lemma of `Std`, which comes with
the whole of Mathlib only. -/
namespace AgenticDelivery.Api
open AgenticDelivery.Data

namespace InMemoryOperationalTelemetry
variable {ν : Type} (durations : Durations ν)

/-- The aggregates of a snapshot agree with each other and with the calls. -/
structure Consistent (calls : List (RecordCall ν)) (recentLimit : Nat)
    (snapshot : TelemetrySnapshot ν) : Prop where
  total : snapshot.totalRequests = calls.length
  statuses : snapshot.statusCounts.values.sum = snapshot.totalRequests
  routes : snapshot.routeCounts.values.sum = snapshot.totalRequests
  /-- The keys are decimal status codes. -/
  errors : snapshot.errorRequests =
    snapshot.statusCounts.total fun key => key.toInt?.any fun code => decide (400 ≤ code)
  stored : ∀ item ∈ (run durations calls).observations,
    item.durationMs = durations.zero ∨ durations.lt durations.zero item.durationMs = true
  recent : snapshot.recentRequests = (calls.map (observe durations)).drop
    (calls.length - min recentLimit calls.length)

variable {durations} {calls : List (RecordCall ν)}

/-- The keys of the status counts are read back as the codes. -/
theorem errors_eq_total (items : List (RequestObservation ν)) :
    items.countP (fun item => decide (400 ≤ item.statusCode)) =
      (counter (items.map fun item => toString item.statusCode)).total
        fun key => key.toInt?.any fun code => decide (400 ≤ code) := by
  rw [total_counter, List.countP_map]
  refine List.countP_congr fun item _ => ?_
  simp [Int.toInt?_repr]

theorem recentRequests_iff (n : Nat) :
    (snapshot durations (run durations calls) n).recentRequests =
        (calls.map (observe durations)).drop (calls.length - min n calls.length) ↔
      n ≠ 0 ∨ calls = [] := by
  rw [snapshot, observations_run, sliceFrom_neg, List.length_map]
  by_cases hn : n = 0
  · have hnone : (calls.map (observe durations)).drop calls.length = [] :=
      List.drop_eq_nil_of_le (Nat.le_of_eq (List.length_map _))
    simp [hn, hnone]
  · simp [hn]

/-- **The aggregates of every snapshot agree, but for the recent requests of a snapshot
that asks for none and gets all.** -/
theorem consistent_snapshot_iff (calls : List (RecordCall ν)) (recentLimit : Nat) :
    Consistent durations calls recentLimit
        (snapshot durations (run durations calls) recentLimit) ↔
      recentLimit ≠ 0 ∨ calls = [] := by
  constructor
  · intro h
    exact (recentRequests_iff recentLimit).mp h.recent
  · intro h
    have hlen : (run durations calls).observations.length = calls.length := by
      rw [observations_run, List.length_map]
    refine ⟨hlen, ?_, ?_, errors_eq_total _, ?_, (recentRequests_iff recentLimit).mpr h⟩
    · exact sum_values_counter.trans (List.length_map _)
    · exact sum_values_counter.trans (List.length_map _)
    · intro item hitem
      rw [observations_run] at hitem
      obtain ⟨call, -, rfl⟩ := List.mem_map.mp hitem
      exact storedDuration_nonneg call.durationMs

/-- A request that succeeds at once. -/
def healthCall : RecordCall Int where
  method := "GET"
  route := "/health"
  statusCode := 200
  durationMs := 1
  correlationId := "c1"
  now := 0

/-- None is asked for, and the one request is returned. -/
theorem not_consistent_snapshot : ¬∀ (calls : List (RecordCall Int)) (recentLimit : Nat),
    Consistent wholeDurations calls recentLimit
      (snapshot wholeDurations (run wholeDurations calls) recentLimit) := by
  intro h
  have hrecent := (h [healthCall] 0).recent
  revert hrecent
  decide

end InMemoryOperationalTelemetry

end AgenticDelivery.Api
