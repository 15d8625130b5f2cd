import LaunchPlan.Text.Listing

/-!
# Durations as text

A duration is a number of nanoseconds. It is shown in the largest of the units
s, ms, µs and ns that it reaches, with as many decimals as it needs.
-/

namespace LaunchPlan.Text

/-- The decimals of `part / scale`, without trailing zeros; `scale` is a power of ten. -/
def decimals (scale part : Nat) : List Char :=
  if h : 1 < scale ∧ 0 < part then
    hexDigit (part / (scale / 10) % 10) :: decimals (scale / 10) (part % (scale / 10))
  else []
termination_by scale
decreasing_by exact Nat.div_lt_self (by omega) (by omega)

def inUnit (scale nanos : Nat) (unit : String) : String :=
  let fraction := decimals scale (nanos % scale)
  let point := if fraction.isEmpty then [] else '.' :: fraction
  toString (nanos / scale) ++ String.ofList point ++ unit

def duration (nanos : Nat) : String :=
  if 1000000000 ≤ nanos then inUnit 1000000000 nanos "s"
  else if 1000000 ≤ nanos then inUnit 1000000 nanos "ms"
  else if 1000 ≤ nanos then inUnit 1000 nanos "µs"
  else inUnit 1 nanos "ns"

end LaunchPlan.Text
