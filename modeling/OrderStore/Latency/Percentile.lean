import OrderStore.Binary64.Basic
import OrderStore.Column
import OrderStore.Latency.Histogram
import OrderStore.Latency.Text

/-!
# Percentiles

The value at a percentile is that of the first bin with which enough samples are
counted. How many are enough is computed in binary64: the percentile is divided
by a hundred and multiplied by the number of samples, with a rounding each time.
-/

namespace OrderStore

/-- The share of the samples that a percentile stands for, without its sign and
at most one. -/
def quantile (percentile : Binary64) : Magnitude :=
  let share := percentile.magnitude.div (.ofNat 100)
  if (Magnitude.ofNat 1).units < share.units then .ofNat 1 else share

/-- How many of `count` samples have to lie at or below the value at a
percentile; one for a percentile that is negative or no number. -/
def rankOf (percentile : Binary64) (count : Nat) : Nat :=
  if percentile.isNaN || percentile.isNegative then 1
  else max 1 ((quantile percentile).mul (.ofNat count)).ceil

namespace Histogram

/-- The value at a percentile: the greatest of its bin, for percentile zero the
least, and zero without samples. -/
def valueAt (h : Histogram) (percentile : Binary64) : Nat :=
  match binOfRank (rankOf percentile h.count) h.bins with
  | none => 0
  | some bin =>
    if !percentile.isNaN && (quantile percentile).units == 0 then bin.lowest
    else highestEquivalent h.digits bin.lowest

/-- The value at percentile 50. -/
def p50 (h : Histogram) : Nat := h.valueAt (.ofMagnitude (.ofNat 50))

/-- The value at percentile 99. -/
def p99 (h : Histogram) : Nat := h.valueAt (.ofMagnitude (.ofNat 99))

/-- The value at percentile 99.9. -/
def p999 (h : Histogram) : Nat := h.valueAt (.ofMagnitude (.ofRatio 999 10))

end Histogram

/-- The headline percentiles of a histogram. -/
structure LatencySummary where
  /-- How many samples were counted. -/
  count : Nat
  /-- The least value equivalent to the smallest sample. -/
  min : Nat
  /-- The value at percentile 50. -/
  p50 : Nat
  /-- The value at percentile 99. -/
  p99 : Nat
  /-- The value at percentile 99.9. -/
  p999 : Nat
  /-- The greatest value equivalent to the largest sample. -/
  max : Nat
deriving DecidableEq

/-- The summary as a line of text. -/
def LatencySummary.describe (s : LatencySummary) : String :=
  s!"p50 {formatLatency s.p50} / p99 {formatLatency s.p99} / p99.9 {formatLatency s.p999}" ++
    s!" / max {formatLatency s.max}"

namespace Histogram

/-- The headline percentiles. -/
def summary (h : Histogram) : LatencySummary := ⟨h.count, h.min, h.p50, h.p99, h.p999, h.max⟩

/-- The distribution as lines of text, each behind a title. -/
def describe (h : Histogram) (title : String) : List String :=
  let line (label : String) (nanos : Nat) : String :=
    s!"{title}   {alignLeft 6 label} {alignRight 12 (formatLatency nanos)}"
  [s!"{title} Distribution ({h.count} samples):", line "Min" h.min, line "P50" h.p50,
    line "P99" h.p99, line "P99.9" h.p999, line "Max" h.max]

end Histogram

end OrderStore
