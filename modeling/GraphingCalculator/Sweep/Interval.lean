import GraphingCalculator.Number.Numeral

/-!
The axis of a sweep: a closed interval and the evenly spaced coordinates on it.
-/

namespace GraphingCalculator

/-- A pair of bounds that nobody has checked. -/
structure Bounds where
  min : Float
  max : Float

/-- Why a sweep does not start. -/
inductive SweepError where
  | invalidRange (bounds : Bounds)
  | noIntervals

/-- The message of a sweep that does not start. -/
def SweepError.message : SweepError → String
  | invalidRange bounds =>
    .join ["invalid range [", showFloat bounds.min, ", ", showFloat bounds.max,
      "]: min must be finite and strictly less than max"]
  | noIntervals => "invalid resolution: at least one sample interval is required"

/-- A range that can be swept: both bounds are finite and the lower one is the lesser. -/
structure Interval where
  min : Float
  max : Float
  min_isFinite : min.isFinite = true
  max_isFinite : max.isFinite = true
  min_lt_max : min < max

namespace Interval

/-- The interval between two bounds, if there is one. -/
def ofBounds (bounds : Bounds) : Except SweepError Interval :=
  if h : bounds.min.isFinite = true ∧ bounds.max.isFinite = true ∧ bounds.min < bounds.max then
    .ok ⟨bounds.min, bounds.max, h.1, h.2.1, h.2.2⟩
  else .error (.invalidRange bounds)

/-- The coordinate number `i` of `count + 1` evenly spaced ones; the last is the upper bound
itself. When the span is too wide for a double, the bounds are weighted instead, so that nothing
overflows. -/
def coordinate (interval : Interval) (count i : Nat) : Float :=
  if i = count then interval.max
  else
    let share := Float.ofNat i / Float.ofNat count
    let span := interval.max - interval.min
    if span.isFinite then interval.min + span * share
    else interval.min * (1.0 - share) + interval.max * share

/-- The coordinates that cut the interval into `count` equal parts. -/
def coordinates (interval : Interval) (count : Nat) : List Float :=
  (List.range (count + 1)).map (interval.coordinate count)

@[simp]
theorem length_coordinates (interval : Interval) (count : Nat) :
    (interval.coordinates count).length = count + 1 := by
  simp [coordinates]

end Interval

end GraphingCalculator
