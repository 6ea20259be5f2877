import Mathlib.Algebra.Group.Nat.Defs
import Mathlib.Tactic.Common

/-!
# Timestamps

`current_timestamp` and `days_to_ymd`. A 64-bit operation that overflows or underflows has no
result.
-/

namespace Hwwctl.Bundler

/-- The result of an addition or a multiplication. -/
def u64 (n : Nat) : Option Nat := if n < 2 ^ 64 then some n else none

/-- A subtraction. -/
def u64Sub (a b : Nat) : Option Nat := if b ≤ a then some (a - b) else none

def daysToYmd (days : Nat) : Option (Nat × Nat × Nat) := do
  let z ← u64 (days + 719468)
  let era := z / 146097
  let doe ← u64Sub z (← u64 (era * 146097))
  let yoe := (← u64Sub (← u64 ((← u64Sub doe (doe / 1460)) + doe / 36524)) (doe / 146096)) / 365
  let y ← u64 (yoe + (← u64 (era * 400)))
  let doy ← u64Sub doe (← u64Sub (← u64 ((← u64 (365 * yoe)) + yoe / 4)) (yoe / 100))
  let mp := (← u64 ((← u64 (5 * doy)) + 2)) / 153
  let d ← u64 ((← u64Sub doy ((← u64 ((← u64 (153 * mp)) + 2)) / 5)) + 1)
  let m ← if mp < 10 then u64 (mp + 3) else u64Sub mp 9
  let y ← if m ≤ 2 then u64 (y + 1) else some y
  return (y, m, d)

/-- `format!("{n:0width}")`. -/
def padded (width n : Nat) : String :=
  String.ofList (List.replicate (width - n.repr.length) '0') ++ n.repr

/-- `clock` is the time since the epoch in seconds, if it has begun. -/
def currentTimestamp (clock : Option Nat) : Option String := do
  let s := clock.getD 0
  let sec := s % 60
  let min := (s / 60) % 60
  let hour := (s / 3600) % 24
  let daysSinceEpoch := s / 86400
  let (year, month, day) ← daysToYmd daysSinceEpoch
  return padded 4 year ++ "-" ++ padded 2 month ++ "-" ++ padded 2 day ++ "T" ++ padded 2 hour ++
    ":" ++ padded 2 min ++ ":" ++ padded 2 sec ++ "Z"

end Hwwctl.Bundler
