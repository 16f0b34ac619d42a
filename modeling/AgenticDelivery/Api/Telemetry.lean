import Mathlib.Algebra.Ring.Int.Defs
import AgenticDelivery.Api.Execution
import AgenticDelivery.Data.Counter

/-! # Request telemetry

`InMemoryOperationalTelemetry` of `operational.py`: observations are appended, and a
snapshot counts them in five ways. Durations, floating-point numbers in the source,
are left abstract. -/
namespace AgenticDelivery.Api
open AgenticDelivery.Data

/-- What the telemetry does with durations. -/
structure Durations (ν : Type) where
  zero : ν
  /-- `x < y`, which holds of no `nan` -/
  lt : ν → ν → Bool
  /-- `round(x, 3)` -/
  round : ν → ν
  sum : List ν → ν
  /-- `x / n` -/
  div : ν → Nat → ν

structure RequestObservation (ν : Type) where
  occurredAt : Datetime
  method : String
  route : String
  statusCode : Int
  durationMs : ν
  correlationId : String
  deriving DecidableEq

structure TelemetrySnapshot (ν : Type) where
  totalRequests : Nat
  errorRequests : Nat
  averageDurationMs : ν
  statusCounts : Dict String Nat
  routeCounts : Dict String Nat
  recentRequests : List (RequestObservation ν)

/-- `items[start:]` of a sequence -/
def sliceFrom {α : Type} (start : Int) (items : List α) : List α :=
  items.drop (if start < 0 then items.length + start else start).toNat

/-- The arguments of one `record`, and what `now_factory` says meanwhile. -/
structure RecordCall (ν : Type) where
  method : String
  route : String
  statusCode : Int
  durationMs : ν
  correlationId : String
  now : Datetime

structure InMemoryOperationalTelemetry (ν : Type) where
  observations : List (RequestObservation ν) := []

namespace InMemoryOperationalTelemetry
variable {ν : Type} (durations : Durations ν)

/-- `max(0.0, round(duration_ms, 3))` -/
def storedDuration (durationMs : ν) : ν :=
  if durations.lt durations.zero (durations.round durationMs) then durations.round durationMs
  else durations.zero

/-- What a call records. -/
def observe (call : RecordCall ν) : RequestObservation ν where
  occurredAt := call.now
  method := call.method
  route := call.route
  statusCode := call.statusCode
  durationMs := storedDuration durations call.durationMs
  correlationId := call.correlationId

def record (telemetry : InMemoryOperationalTelemetry ν) (call : RecordCall ν) :
    InMemoryOperationalTelemetry ν where
  observations := telemetry.observations ++ [observe durations call]

def snapshot (telemetry : InMemoryOperationalTelemetry ν) (recentLimit : Int := 20) :
    TelemetrySnapshot ν :=
  let observations := telemetry.observations
  let total := observations.length
  let average := if total = 0 then durations.zero
    else durations.div (durations.sum (observations.map (·.durationMs))) total
  { totalRequests := total
    errorRequests := observations.countP fun item => decide (400 ≤ item.statusCode)
    averageDurationMs := durations.round average
    statusCounts := counter (observations.map fun item => toString item.statusCode)
    routeCounts := counter (observations.map (·.route))
    recentRequests := sliceFrom (-recentLimit) observations }

/-- A sequence of calls, from the empty telemetry. -/
def run (calls : List (RecordCall ν)) : InMemoryOperationalTelemetry ν :=
  calls.foldl (record durations) {}

/-! ## The parts of a snapshot -/

variable {durations} {calls : List (RecordCall ν)}

theorem observations_run : (run durations calls).observations = calls.map (observe durations) := by
  have hfold (telemetry : InMemoryOperationalTelemetry ν) :
      (calls.foldl (record durations) telemetry).observations =
        telemetry.observations ++ calls.map (observe durations) := by
    induction calls generalizing telemetry with
    | nil => simp
    | cons call calls ih => rw [List.foldl_cons, ih]; simp [record]
  exact (hfold {}).trans (List.nil_append _)

/-- A stored duration is zero or more. -/
theorem storedDuration_nonneg (durationMs : ν) :
    storedDuration durations durationMs = durations.zero ∨
      durations.lt durations.zero (storedDuration durations durationMs) = true := by
  unfold storedDuration
  by_cases h : durations.lt durations.zero (durations.round durationMs) = true
  · rw [if_pos h]
    exact .inr h
  · rw [if_neg h]
    exact .inl rfl

/-- The last `n` items, unless `n` is zero: `items[-0:]` is all of them. -/
theorem sliceFrom_neg {α : Type} (items : List α) (n : Nat) : sliceFrom (-n) items =
    if n = 0 then items else items.drop (items.length - min n items.length) := by
  unfold sliceFrom
  by_cases hn : n = 0
  · simp [hn]
  · rw [if_neg hn, if_pos (by omega)]
    congr 1
    omega

/-- Whole milliseconds. -/
def wholeDurations : Durations Int where
  zero := 0
  lt x y := decide (x < y)
  round := id
  sum := List.sum
  div x n := x / n

end InMemoryOperationalTelemetry

end AgenticDelivery.Api
