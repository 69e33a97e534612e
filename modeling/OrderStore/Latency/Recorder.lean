import OrderStore.Latency.Percentile

/-!
# Recording outcomes

A recorder counts the operations of one kind that succeeded and failed, and how
long they took. Each worker has its own; they are merged when the work is done.
-/

namespace OrderStore

/-- Outcomes and durations of operations of one kind. -/
structure Recorder where
  /-- How long the operations took. -/
  latency : Histogram := .empty
  /-- How many succeeded. -/
  succeeded : Nat := 0
  /-- How many failed. -/
  failed : Nat := 0
deriving DecidableEq

namespace Recorder

/-- The recorder with one more operation. -/
def record (r : Recorder) (ok : Bool) (nanos : Nat) : Recorder where
  latency := r.latency.record nanos
  succeeded := if ok then r.succeeded + 1 else r.succeeded
  failed := if ok then r.failed else r.failed + 1

/-- How many operations there were. -/
def total (r : Recorder) : Nat := r.succeeded + r.failed

/-- The recorder with the operations of another one. -/
def merge (r other : Recorder) : Recorder where
  latency := r.latency.merge other.latency
  succeeded := r.succeeded + other.succeeded
  failed := r.failed + other.failed

/-- The recorder with the operations of another one, if the histograms can be
merged. -/
def merge? (r other : Recorder) : Except Histogram.MergeError Recorder :=
  match r.latency.merge? other.latency with
  | .error fault => .error fault
  | .ok _ => .ok (r.merge other)

end Recorder

end OrderStore
