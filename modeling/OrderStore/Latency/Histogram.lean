/-!
# Histograms of latencies

Samples are counted in bins whose width grows with the sample, so that a fixed
number of significant digits is kept at every size. Only bins that hold a sample
are stored, by increasing value.
-/

namespace OrderStore

/-- Samples above what the bins can hold are counted as this many nanoseconds,
which is one minute. -/
def maxTrackableNanos : Nat := 60000000000

/-- The largest sample that is counted as it is. -/
def maxBinnedNanos : Nat := (1 <<< 36) - 1

/-- How many bits of a sample are kept at a precision of `digits` significant
digits: enough to tell apart `2 * 10 ^ digits` values. -/
def precisionBits (digits : Nat) : Nat := Nat.log2 (2 * Nat.pow 10 digits - 1) + 1

/-- How many low bits of a sample are dropped at a precision of `digits`
significant digits. -/
def droppedBits (digits sample : Nat) : Nat := Nat.log2 sample + 1 - precisionBits digits

/-- The least value counted in the same bin as `sample`. -/
def lowestEquivalent (digits sample : Nat) : Nat :=
  (sample >>> droppedBits digits sample) <<< droppedBits digits sample

/-- The greatest value counted in the same bin as `sample`. -/
def highestEquivalent (digits sample : Nat) : Nat :=
  lowestEquivalent digits sample + ((1 <<< droppedBits digits sample) - 1)

/-- The value as which a sample is counted: at least one nanosecond, and one
minute if the bins do not reach it. -/
def countedAs (sample : Nat) : Nat :=
  if maxBinnedNanos < sample then maxTrackableNanos else max sample 1

/-- The bin of the samples whose least equivalent value is `lowest`. -/
structure Bin where
  /-- Least value of the bin. -/
  lowest : Nat
  /-- How many samples were counted in it. -/
  count : Nat
deriving DecidableEq

/-- Bins by increasing value, with `count` more samples in the one that starts at
`lowest`. -/
def addToBins (lowest count : Nat) : List Bin → List Bin
  | [] => [⟨lowest, count⟩]
  | bin :: bins =>
    if lowest < bin.lowest then ⟨lowest, count⟩ :: bin :: bins
    else if lowest = bin.lowest then ⟨lowest, bin.count + count⟩ :: bins
    else bin :: addToBins lowest count bins

/-- Bins by increasing value, with the samples of the other bins. -/
def mergeBins (bins others : List Bin) : List Bin :=
  others.foldl (fun bins bin => addToBins bin.lowest bin.count bins) bins

/-- The smallest and the largest of some samples, as they were counted. -/
structure Extremes where
  /-- The smallest sample. -/
  smallest : Nat
  /-- The largest sample. -/
  largest : Nat
deriving DecidableEq

/-- The extremes of two collections of samples together, either of which may have
none. -/
def Extremes.join : Option Extremes → Option Extremes → Option Extremes
  | none, others => others
  | some extremes, none => some extremes
  | some ⟨smallest, largest⟩, some ⟨smallest', largest'⟩ =>
    some ⟨min smallest smallest', max largest largest'⟩

/-- A histogram of latencies in nanoseconds. -/
structure Histogram where
  /-- Significant digits that are kept. -/
  digits : Nat
  /-- The bins that hold a sample, by increasing value. -/
  bins : List Bin := []
  /-- The smallest and the largest sample, if there is any. -/
  extremes : Option Extremes := none
deriving DecidableEq

namespace Histogram

/-- The precision is not between 0 and 5 significant digits. -/
structure PrecisionError where
deriving DecidableEq

/-- The fault in words. -/
def PrecisionError.message (_ : PrecisionError) : String :=
  "invalid histogram precision: Number of significant digits must be in the range `[0, 5]`"

/-- An empty histogram that keeps `digits` significant digits. -/
def withPrecision (digits : Nat) : Except PrecisionError Histogram :=
  if digits ≤ 5 then .ok { digits } else .error {}

/-- An empty histogram that keeps three significant digits. -/
def empty : Histogram := { digits := 3 }

/-- The histogram with `count` more samples of a value the bins can hold. -/
def add (h : Histogram) (value count : Nat) : Histogram :=
  { h with
    bins := addToBins (lowestEquivalent h.digits value) count h.bins
    extremes := Extremes.join h.extremes (some ⟨value, value⟩) }

/-- The histogram with one more sample. -/
def record (h : Histogram) (sample : Nat) : Histogram := h.add (countedAs sample) 1

/-- The histogram with the samples of another one. With the same precision the bins
are added and the extremes are kept as they are. Otherwise of each bin of the other
one only its least value is known. -/
def merge (h other : Histogram) : Histogram :=
  if h.digits = other.digits then
    { h with
      bins := mergeBins h.bins other.bins
      extremes := Extremes.join h.extremes other.extremes }
  else other.bins.foldl (fun h bin => h.add bin.lowest bin.count) h

/-- How many samples were counted. -/
def count (h : Histogram) : Nat := h.bins.foldr (fun bin total => bin.count + total) 0

/-- The least value equivalent to the smallest sample, zero without samples. -/
def min (h : Histogram) : Nat :=
  match h.extremes with
  | none => 0
  | some extremes => lowestEquivalent h.digits extremes.smallest

/-- The greatest value equivalent to the largest sample, zero without
samples. -/
def max (h : Histogram) : Nat :=
  match h.extremes with
  | none => 0
  | some extremes => highestEquivalent h.digits extremes.largest

/-- The other histogram has a sample above what the bins can hold. -/
structure MergeError where
deriving DecidableEq

/-- The histogram with the samples of another one, if the bins can hold them. -/
def merge? (h other : Histogram) : Except MergeError Histogram :=
  if maxBinnedNanos < other.max then .error {} else .ok (h.merge other)

/-- The first of some bins with which at least `rank` samples are counted. -/
def binOfRank (rank : Nat) : List Bin → Option Bin
  | [] => none
  | bin :: bins => if rank ≤ bin.count then some bin else binOfRank (rank - bin.count) bins

end Histogram

end OrderStore
