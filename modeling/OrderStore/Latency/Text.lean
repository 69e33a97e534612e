import OrderStore.Binary64.Decimal

/-!
# Latencies as text

A latency is written in the largest unit of which it has at least one, with two
decimals unless that unit is the nanosecond. The unit is chosen before the
number is rounded.
-/

namespace OrderStore

/-- `nanos` nanoseconds in a unit of `size` nanoseconds, with two decimals. -/
def inUnit (nanos size : Nat) : String :=
  ((Magnitude.ofNat nanos).div (.ofNat size)).toFixed 2

/-- A latency in a unit that suits its size. -/
def formatLatency (nanos : Nat) : String :=
  if nanos < 1000 then s!"{nanos} ns"
  else if nanos < 1000000 then inUnit nanos 1000 ++ " μs"
  else if nanos < 1000000000 then inUnit nanos 1000000 ++ " ms"
  else inUnit nanos 1000000000 ++ " s"

/-- Operations per second; none in no time. -/
def opsPerSecond (operations nanos : Nat) : Magnitude :=
  if nanos = 0 then .ofNat 0
  else ((Magnitude.ofNat operations).mul (.ofNat 1000000000)).div (.ofNat nanos)

end OrderStore
