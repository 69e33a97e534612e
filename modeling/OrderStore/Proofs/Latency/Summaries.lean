import OrderStore.Proofs.Latency.Ranks
import Mathlib.Logic.Function.Basic

/-!
# What is told of a histogram comes in order

Histograms of several precisions record samples and are merged into each other. Whatever
the steps, each of them counted some values that its bins can hold. The rank of a
percentage keeps the order of the percentages through every rounding, is never above the
number of samples, and is that of the first and of the last sample at the two ends. So the
values at the percentages rise from the minimum to the maximum.
-/

namespace OrderStore

/-! ## Ranks of percentages -/

/-- A number from zero to a hundred. -/
structure IsPercentage (percentile : Binary64) : Prop where
  /-- It is a number. -/
  number : percentile.isNaN = false
  /-- It is not below zero. -/
  nonneg : 0 ≤ percentile.toUnits
  /-- It is not above a hundred. -/
  le_hundred : percentile.toUnits ≤ 100 * Magnitude.unitsInOne

instance (percentile : Binary64) : Decidable (IsPercentage percentile) :=
  decidable_of_iff
    (percentile.isNaN = false ∧ 0 ≤ percentile.toUnits ∧
      percentile.toUnits ≤ 100 * Magnitude.unitsInOne)
    ⟨fun h => ⟨h.1, h.2.1, h.2.2⟩, fun h => ⟨h.number, h.nonneg, h.le_hundred⟩⟩

theorem units_hundred : (Magnitude.ofNat 100).units = 100 * Magnitude.unitsInOne :=
  Magnitude.units_ofNat (by decide)

/-- The share of a percentile is its hundredth, rounded and at most one. -/
theorem units_quantile (percentile : Binary64) :
    (quantile percentile).units =
      min (Magnitude.rounded percentile.magnitude.units 100) Magnitude.unitsInOne := by
  have hone : (Magnitude.ofNat 1).units = Magnitude.unitsInOne := by
    rw [Magnitude.units_ofNat (by decide), Nat.one_mul]
  have hshare : (percentile.magnitude.div (.ofNat 100)).units =
      Magnitude.rounded percentile.magnitude.units 100 := by
    rw [Magnitude.div, Magnitude.units_ofRatio, units_hundred,
      Magnitude.rounded_mul_mul_right Magnitude.unitsInOne_pos]
  rw [quantile, hone, hshare]
  split_ifs with habove
  · rw [hone, Nat.min_eq_right (Nat.le_of_lt habove)]
  · rw [hshare, Nat.min_eq_left (Nat.le_of_not_lt habove)]

theorem units_quantile_le (percentile : Binary64) :
    (quantile percentile).units ≤ Magnitude.unitsInOne := by
  rw [units_quantile]
  exact Nat.min_le_right ..

namespace IsPercentage

variable {percentile higher : Binary64} {count : Nat}

/-- Only a zero has a sign. -/
theorem toUnits_eq (h : IsPercentage percentile) :
    percentile.toUnits = percentile.magnitude.units := by
  have hnonneg := h.nonneg
  unfold Binary64.toUnits at *
  split_ifs at * <;> omega

theorem units_quantile_mono (h : IsPercentage percentile) (hhigher : IsPercentage higher)
    (hle : percentile.toUnits ≤ higher.toUnits) :
    (quantile percentile).units ≤ (quantile higher).units := by
  rw [h.toUnits_eq, hhigher.toUnits_eq, Int.ofNat_le] at hle
  rw [units_quantile, units_quantile]
  exact min_le_min_right _ (Magnitude.rounded_mono hle (by decide))

theorem units_quantile_zero (h : IsPercentage percentile) (hzero : percentile.toUnits = 0) :
    (quantile percentile).units = 0 := by
  rw [h.toUnits_eq, Int.natCast_eq_zero] at hzero
  have hrounded : Magnitude.rounded 0 100 = 0 := by decide
  rw [units_quantile, hzero, hrounded, Nat.zero_min]

theorem units_quantile_hundred (h : IsPercentage percentile)
    (hhundred : percentile.toUnits = 100 * Magnitude.unitsInOne) :
    (quantile percentile).units = Magnitude.unitsInOne := by
  have hunits : percentile.magnitude.units = 100 * Magnitude.unitsInOne := by
    rw [h.toUnits_eq] at hhundred
    exact_mod_cast hhundred
  have hexact : Magnitude.Exact Magnitude.unitsInOne := by
    rw [← Nat.one_mul Magnitude.unitsInOne]
    exact Magnitude.exact_mul_unitsInOne (by decide)
  rw [units_quantile, hunits, Nat.mul_comm, Magnitude.rounded_of_exact hexact (by decide),
    Nat.min_self]

theorem ceil_quantile_mul_zero (h : IsPercentage percentile) (hzero : percentile.toUnits = 0)
    (hcount : count ≤ 2 ^ 53) : ((quantile percentile).mul (.ofNat count)).ceil = 0 := by
  rw [← Nat.le_zero, ceil_quantile_mul_le_iff percentile hcount, h.units_quantile_zero hzero,
    Nat.zero_mul, Nat.zero_mul]
  decide

/-- The sign of a zero does not matter to its rank. -/
theorem rankOf_eq (h : IsPercentage percentile) (hcount : count ≤ 2 ^ 53) :
    rankOf percentile count = max 1 ((quantile percentile).mul (.ofNat count)).ceil := by
  rw [rankOf, h.number, Bool.false_or]
  split_ifs with hnegative
  · have hzero : percentile.toUnits = 0 := by
      have hnonneg := h.nonneg
      rw [Binary64.toUnits, if_pos hnegative] at *
      omega
    rw [h.ceil_quantile_mul_zero hzero hcount, Nat.max_zero]
  · rfl

/-- A higher percentage has no lower rank. -/
theorem rankOf_mono (h : IsPercentage percentile) (hhigher : IsPercentage higher)
    (hle : percentile.toUnits ≤ higher.toUnits) (hcount : count ≤ 2 ^ 53) :
    rankOf percentile count ≤ rankOf higher count := by
  rw [h.rankOf_eq hcount, hhigher.rankOf_eq hcount]
  exact max_le_max_left 1
    (Magnitude.ceil_mono (Magnitude.units_mul_mono (h.units_quantile_mono hhigher hle)))

/-- The rank of a percentage is that of a sample. -/
theorem rankOf_le (h : IsPercentage percentile) (hpos : 0 < count) (hcount : count ≤ 2 ^ 53) :
    rankOf percentile count ≤ count := by
  rw [h.rankOf_eq hcount, Nat.max_le, ceil_quantile_mul_le_iff percentile hcount]
  refine ⟨hpos, Magnitude.rounded_le (Magnitude.exact_mul_unitsInOne hcount) (by decide) ?_⟩
  rw [Nat.mul_one, Nat.mul_comm count]
  exact Nat.mul_le_mul_right count (units_quantile_le percentile)

theorem rankOf_zero (h : IsPercentage percentile) (hzero : percentile.toUnits = 0)
    (hcount : count ≤ 2 ^ 53) : rankOf percentile count = 1 := by
  rw [h.rankOf_eq hcount, h.ceil_quantile_mul_zero hzero hcount, Nat.max_zero]

/-- The rank of a hundred is that of the last sample. -/
theorem rankOf_hundred (h : IsPercentage percentile)
    (hhundred : percentile.toUnits = 100 * Magnitude.unitsInOne) (hpos : 0 < count)
    (hcount : count ≤ 2 ^ 53) : rankOf percentile count = count := by
  have hproduct : Magnitude.rounded ((quantile percentile).units * count) 1 =
      count * Magnitude.unitsInOne := by
    rw [h.units_quantile_hundred hhundred, Nat.mul_comm]
    exact Magnitude.rounded_one_of_exact (Magnitude.exact_mul_unitsInOne hcount)
  have hle : count ≤ rankOf percentile count := by
    rw [h.rankOf_eq hcount]
    refine Nat.le_trans ?_ (Nat.le_max_right ..)
    have hceil := (ceil_quantile_mul_le_iff percentile hcount _).mp (Nat.le_refl _)
    rw [hproduct] at hceil
    exact Nat.le_of_mul_le_mul_right hceil Magnitude.unitsInOne_pos
  exact Nat.le_antisymm (h.rankOf_le hpos hcount) hle

theorem fifty : IsPercentage (.ofMagnitude (.ofNat 50)) := by decide +kernel

theorem ninetyNine : IsPercentage (.ofMagnitude (.ofNat 99)) := by decide +kernel

theorem ninetyNineNine : IsPercentage (.ofMagnitude (.ofRatio 999 10)) := by decide +kernel

end IsPercentage

/-! ## One histogram -/

/-- The values at percentages rise from the minimum to the maximum. -/
structure Rises (h : Histogram) : Prop where
  /-- The value at a higher percentage is no lower. -/
  valueAt_mono : ∀ percentile higher, IsPercentage percentile → IsPercentage higher →
    percentile.toUnits ≤ higher.toUnits → h.valueAt percentile ≤ h.valueAt higher
  /-- No value at a percentage is below the minimum. -/
  min_le_valueAt : ∀ percentile, IsPercentage percentile → h.min ≤ h.valueAt percentile
  /-- No value at a percentage is above the maximum. -/
  valueAt_le_max : ∀ percentile, IsPercentage percentile → h.valueAt percentile ≤ h.max
  /-- The value at zero is the minimum. -/
  valueAt_zero : ∀ percentile, IsPercentage percentile → percentile.toUnits = 0 →
    h.valueAt percentile = h.min
  /-- The value at a hundred is the maximum. -/
  valueAt_hundred : ∀ percentile, IsPercentage percentile →
    percentile.toUnits = 100 * Magnitude.unitsInOne → h.valueAt percentile = h.max

theorem Rises.summary {h : Histogram} (rises : Rises h) :
    h.summary.min ≤ h.summary.p50 ∧ h.summary.p50 ≤ h.summary.p99 ∧
      h.summary.p99 ≤ h.summary.p999 ∧ h.summary.p999 ≤ h.summary.max :=
  ⟨rises.min_le_valueAt _ .fifty, rises.valueAt_mono _ _ .fifty .ninetyNine (by decide +kernel),
    rises.valueAt_mono _ _ .ninetyNine .ninetyNineNine (by decide +kernel),
    rises.valueAt_le_max _ .ninetyNineNine⟩

section OfValues

variable (digits : Nat) {values : List Nat} (hne : values ≠ []) (hcount : values.length ≤ 2 ^ 53)

include hne hcount

theorem Histogram.valueAt_mono_ofValues {percentile higher : Binary64}
    (h : IsPercentage percentile) (hhigher : IsPercentage higher)
    (hle : percentile.toUnits ≤ higher.toUnits) :
    (ofValues digits values).valueAt percentile ≤ (ofValues digits values).valueAt higher := by
  have hpos := List.length_pos_iff.mpr hne
  have hranks := h.rankOf_mono hhigher hle hcount
  have hrank := hhigher.rankOf_le hpos hcount
  have hvalues := nthSmallest_mono (rankOf_pos percentile values.length) hranks hrank
  rw [valueAt_ofValues digits (Nat.le_trans hranks hrank), valueAt_ofValues digits hrank]
  by_cases hzero : IsZeroShare percentile
  · rw [if_pos hzero]
    split_ifs
    · exact lowestEquivalent_mono digits hvalues
    · exact Nat.le_trans (lowestEquivalent_mono digits hvalues)
        (lowestEquivalent_le_highestEquivalent ..)
  · -- above a share that is not zero no share is
    have hunits := h.units_quantile_mono hhigher hle
    have hnonzero : ¬IsZeroShare higher := fun hzero' =>
      hzero ⟨h.number, Nat.le_zero.mp (hzero'.2 ▸ hunits)⟩
    rw [if_neg hzero, if_neg hnonzero]
    exact highestEquivalent_mono digits hvalues

theorem rises_ofValues : Rises (.ofValues digits values) := by
  have hpos := List.length_pos_iff.mpr hne
  constructor
  · intro percentile higher h hhigher
    exact Histogram.valueAt_mono_ofValues digits hne hcount h hhigher
  · intro percentile h
    have hrank := h.rankOf_le hpos hcount
    have hvalue := nthSmallest_mono (by decide) (rankOf_pos percentile values.length) hrank
    rw [Histogram.min_ofValues digits hne]
    exact Nat.le_trans (lowestEquivalent_mono digits hvalue)
      (Histogram.valueAt_ofValues_mem_bin digits hrank).1
  · intro percentile h
    have hrank := h.rankOf_le hpos hcount
    have hvalue := nthSmallest_mono (rankOf_pos percentile _) hrank (Nat.le_refl _)
    rw [Histogram.max_ofValues digits hne]
    exact Nat.le_trans (Histogram.valueAt_ofValues_mem_bin digits hrank).2
      (highestEquivalent_mono digits hvalue)
  · intro percentile h hzero
    rw [Histogram.valueAt_ofValues digits (h.rankOf_le hpos hcount), h.rankOf_zero hzero hcount,
      if_pos ⟨h.number, h.units_quantile_zero hzero⟩, Histogram.min_ofValues digits hne]
  · intro percentile h hhundred
    have hshare : ¬IsZeroShare percentile := by
      rintro ⟨-, hzero⟩
      rw [h.units_quantile_hundred hhundred] at hzero
      exact Nat.ne_of_gt Magnitude.unitsInOne_pos hzero
    rw [Histogram.valueAt_ofValues digits (h.rankOf_le hpos hcount),
      h.rankOf_hundred hhundred hpos hcount, if_neg hshare, Histogram.max_ofValues digits hne]

end OfValues

/-! ## Several histograms -/

/-- Each histogram counted some values that the bins can hold. -/
def Counted {ι : Type} (digits : ι → Nat) (pool : ι → Histogram) : Prop :=
  ∀ i, ∃ values, pool i = .ofValues (digits i) values ∧ ∀ value ∈ values, value ≤ maxBinnedNanos

namespace Counted

variable {ι : Type} {digits : ι → Nat} {pool : ι → Histogram} (h : Counted digits pool)

include h

/-- A merge does not fail. What it adds are as many values as the source has. -/
theorem merge? (target source : ι) :
    ∃ values, (pool target).merge? (pool source) = .ok ((pool target).addAll values) ∧
      values.length = (pool source).count ∧ ∀ value ∈ values, value ≤ maxBinnedNanos := by
  obtain ⟨values, hsource, hbinned⟩ := h source
  refine ⟨if (pool target).digits = digits source then values
    else values.map (lowestEquivalent (digits source)), ?_, ?_, ?_⟩
  · rw [hsource, Histogram.merge?_ofValues _ _ hbinned, Histogram.merge_ofValues]
  · rw [hsource, Histogram.count_ofValues]
    split_ifs
    · rfl
    · exact List.length_map _
  · split_ifs
    · exact hbinned
    · intro lowest hlowest
      obtain ⟨value, hvalue, rfl⟩ := List.mem_map.mp hlowest
      exact Nat.le_trans (lowestEquivalent_le ..) (hbinned value hvalue)

/-- A merge adds the count of the source to that of the target. -/
theorem count_merge? (target source : ι) :
    ∃ merged, (pool target).merge? (pool source) = .ok merged ∧
      merged.count = (pool target).count + (pool source).count := by
  obtain ⟨values, hmerge, hlength, -⟩ := h.merge? target source
  obtain ⟨before, htarget, -⟩ := h target
  refine ⟨_, hmerge, ?_⟩
  rw [← hlength, htarget, ← Histogram.ofValues_append, Histogram.count_ofValues,
    Histogram.count_ofValues, List.length_append]

/-- The percentiles of a histogram that is not empty come in order. -/
theorem rises (i : ι) (hpos : 0 < (pool i).count) (hcount : (pool i).count ≤ 2 ^ 53) :
    Rises (pool i) := by
  obtain ⟨values, hvalues, -⟩ := h i
  rw [hvalues] at hpos hcount ⊢
  rw [Histogram.count_ofValues] at hpos hcount
  exact rises_ofValues (digits i) (List.length_pos_iff.mp hpos) hcount

end Counted

/-- A step of work on some histograms. -/
inductive HistogramStep (ι : Type) where
  /-- A histogram records a sample. -/
  | record (target : ι) (sample : Nat)
  /-- A histogram is merged into another one. -/
  | merge (target source : ι)

section Steps

variable {ι : Type} [DecidableEq ι]

/-- The histograms after a step, unless it is a merge that fails. -/
def HistogramStep.perform? (pool : ι → Histogram) :
    HistogramStep ι → Except Histogram.MergeError (ι → Histogram)
  | record target sample => .ok (Function.update pool target ((pool target).record sample))
  | merge target source => do
    return Function.update pool target (← (pool target).merge? (pool source))

/-- The histograms after several steps. -/
def HistogramStep.performAll? (pool : ι → Histogram) (steps : List (HistogramStep ι)) :
    Except Histogram.MergeError (ι → Histogram) :=
  steps.foldlM perform? pool

variable {digits : ι → Nat} {pool : ι → Histogram}

/-- Any one of the histograms may count several more values. -/
theorem Counted.update (h : Counted digits pool) (target : ι) {values : List Nat}
    (hvalues : ∀ value ∈ values, value ≤ maxBinnedNanos) :
    Counted digits (Function.update pool target ((pool target).addAll values)) := by
  intro i
  rcases eq_or_ne i target with rfl | hne
  · obtain ⟨before, hbefore, hbinned⟩ := h i
    refine ⟨before ++ values, ?_, List.forall_mem_append.mpr ⟨hbinned, hvalues⟩⟩
    rw [Function.update_self, hbefore, Histogram.ofValues_append]
  · rw [Function.update_of_ne hne]
    exact h i

/-- No step fails, and each leaves histograms that counted some values. -/
theorem Counted.perform? (h : Counted digits pool) (step : HistogramStep ι) :
    ∃ after, step.perform? pool = .ok after ∧ Counted digits after := by
  cases step with
  | record target sample =>
    have hvalues : ∀ value ∈ [countedAs sample], value ≤ maxBinnedNanos := by
      simp [countedAs_le]
    exact ⟨_, rfl, h.update target hvalues⟩
  | merge target source =>
    obtain ⟨values, hmerge, -, hvalues⟩ := h.merge? target source
    refine ⟨Function.update pool target ((pool target).addAll values), ?_,
      h.update target hvalues⟩
    rw [HistogramStep.perform?, hmerge]
    rfl

/-- Nor do several steps fail. -/
theorem Counted.performAll? (h : Counted digits pool) (steps : List (HistogramStep ι)) :
    ∃ after, HistogramStep.performAll? pool steps = .ok after ∧ Counted digits after := by
  induction steps generalizing pool with
  | nil => exact ⟨pool, rfl, h⟩
  | cons step steps ih =>
    obtain ⟨next, hstep, hnext⟩ := h.perform? step
    obtain ⟨after, hsteps, hafter⟩ := ih hnext
    refine ⟨after, ?_, hafter⟩
    rw [HistogramStep.performAll?, List.foldlM_cons, hstep]
    exact hsteps

/-- Whatever histograms record and merge, also across precisions, no step fails and a merge
adds the count of the source to that of the target. Of a histogram that is not empty and
has up to `2 ^ 53` samples, the values at the percentages rise from the minimum at zero to
the maximum at a hundred, and so does its summary. -/
theorem summaries_rise (hdigits : ∀ i, digits i ≤ 5) (steps : List (HistogramStep ι)) :
    ∃ new pool, (∀ i, Histogram.withPrecision (digits i) = .ok (new i)) ∧
      HistogramStep.performAll? new steps = .ok pool ∧
      (∀ target source, ∃ merged, (pool target).merge? (pool source) = .ok merged ∧
        merged.count = (pool target).count + (pool source).count) ∧
      ∀ i, 0 < (pool i).count → (pool i).count ≤ 2 ^ 53 →
        Rises (pool i) ∧
          let s := (pool i).summary
          s.min ≤ s.p50 ∧ s.p50 ≤ s.p99 ∧ s.p99 ≤ s.p999 ∧ s.p999 ≤ s.max := by
  have hnew : Counted digits fun i => { digits := digits i } := fun i =>
    ⟨[], rfl, List.forall_mem_nil _⟩
  obtain ⟨pool, hsteps, hpool⟩ := hnew.performAll? steps
  refine ⟨_, pool, fun i => Histogram.withPrecision_eq (hdigits i), hsteps, hpool.count_merge?, ?_⟩
  intro i hpos hcount
  have hrises := hpool.rises i hpos hcount
  exact ⟨hrises, hrises.summary⟩

end Steps

/-- Two histograms of four digits and of one that are merged into each other. The second one
has three samples in the end. -/
theorem summaries_rise_both :
    let digits := fun fine : Bool => if fine then 4 else 1
    let steps : List (HistogramStep Bool) :=
      [.record true 123456, .record true 0, .merge false true, .record false 65000000001,
        .merge true false]
    (∀ fine, digits fine ≤ 5) ∧
      ∃ new pool, (∀ fine, Histogram.withPrecision (digits fine) = .ok (new fine)) ∧
        HistogramStep.performAll? new steps = .ok pool ∧ (pool false).count = 3 ∧
        Rises (pool false) := by
  intro digits steps
  have hdigits : ∀ fine, digits fine ≤ 5 := by decide
  refine ⟨hdigits, ?_⟩
  obtain ⟨new, pool, hnew, hsteps, -, hrises⟩ := summaries_rise hdigits steps
  have hempty : new = fun fine => { digits := digits fine } := by
    funext fine
    have hfine := hnew fine
    rw [Histogram.withPrecision_eq (hdigits fine)] at hfine
    exact (Except.ok.inj hfine).symm
  have hcount : (pool false).count = 3 := by
    have hcounted : (HistogramStep.performAll? (fun fine => { digits := digits fine }) steps).map
        (fun pool => (pool false).count) = .ok 3 := by decide +kernel
    rw [← hempty, hsteps] at hcounted
    exact Except.ok.inj hcounted
  exact ⟨new, pool, hnew, hsteps, hcount,
    (hrises false (by rw [hcount]; decide) (by rw [hcount]; decide)).1⟩

end OrderStore
