import OrderStore.Proofs.Latency.Ranks
import Mathlib.Algebra.Order.Floor.Div
import Mathlib.GroupTheory.GroupAction.Ring

/-!
# The ranks of the headline percentiles

The rank of a percentile is a product that is rounded to the binary64 format before it is
rounded up. For the percentiles 50 and 99 the roundings stay on the right side of every
whole number: the rank is the exact one. The share of the percentile 99.9 is held as a
number slightly above it, which shows where the exact product is a whole number. There
the product is mostly rounded to the next number of the format, and the rank is one more
than the exact one.
-/

namespace OrderStore

/-! ## Ranks by the rounded product -/

/-- A percentile stands for `share` times `2 ^ -53` of the samples. -/
structure HasShare (percentile : Binary64) (share : Nat) : Prop where
  /-- The percentile is a number and has no sign. -/
  unsigned : (percentile.isNaN || percentile.isNegative) = false
  /-- At least half of the samples are meant. -/
  half_le : 2 ^ 52 ≤ share
  /-- The share in units of the format. -/
  units_eq : ∃ scale, Magnitude.unitsInOne = 2 ^ 53 * 1 <<< scale ∧
    (quantile percentile).units = share * 1 <<< scale

theorem hasShare_fifty : HasShare (.ofMagnitude (.ofNat 50)) (2 ^ 52) :=
  ⟨by decide +kernel, Nat.le_refl _, 1021, by decide, by decide +kernel⟩

theorem hasShare_ninetyNine : HasShare (.ofMagnitude (.ofNat 99)) 8917127262193582 :=
  ⟨by decide +kernel, by decide, 1021, by decide, by decide +kernel⟩

theorem hasShare_ninetyNineNine :
    HasShare (.ofMagnitude (.ofRatio 999 10)) 8998192055486252 :=
  ⟨by decide +kernel, by decide, 1021, by decide, by decide +kernel⟩

theorem HasShare.not_isZeroShare {percentile : Binary64} {share : Nat}
    (h : HasShare percentile share) : ¬IsZeroShare percentile := by
  rintro ⟨-, hzero⟩
  obtain ⟨-, hshare, scale, -, hunits⟩ := h
  rw [Nat.one_shiftLeft, hzero] at hunits
  have := Nat.mul_pos (Nat.lt_of_lt_of_le (Nat.two_pow_pos 52) hshare) (Nat.two_pow_pos scale)
  omega

section Rank

variable {percentile : Binary64} {share count rank : Nat}

/-- The rank of a percentile is found on either side of the rounded product. -/
theorem HasShare.rankOf_eq (h : HasShare percentile share) (hpos : 0 < count)
    (hcount : count ≤ 2 ^ 53) (hrank : 0 < rank)
    (hlow : (rank - 1) * 2 ^ 53 < Magnitude.rounded (share * count) 1)
    (hhigh : Magnitude.rounded (share * count) 1 ≤ rank * 2 ^ 53) :
    rankOf percentile count = rank := by
  obtain ⟨hunsigned, hshare, scale, hone, hunits⟩ := h
  rw [Nat.one_shiftLeft] at hunits hone
  have hlarge : 2 ^ 52 ≤ share * count := Nat.le_trans hshare (Nat.le_mul_of_pos_right _ hpos)
  have hproduct : Magnitude.rounded ((quantile percentile).units * count) 1 =
      Magnitude.rounded (share * count) 1 * 2 ^ scale := by
    rw [hunits, Nat.mul_right_comm, Magnitude.rounded_mul_two_pow hlarge]
  have hceil (bound : Nat) : ((quantile percentile).mul (.ofNat count)).ceil ≤ bound ↔
      Magnitude.rounded (share * count) 1 ≤ bound * 2 ^ 53 := by
    rw [ceil_quantile_mul_le_iff percentile hcount, hproduct, hone, ← Nat.mul_assoc]
    exact Nat.mul_le_mul_right_iff (Nat.two_pow_pos scale)
  have hle := (hceil rank).mpr hhigh
  have hge := mt (hceil (rank - 1)).mp (Nat.not_le_of_lt hlow)
  rw [rankOf, hunsigned, if_neg (by decide)]
  exact Nat.le_antisymm (Nat.max_le.mpr ⟨hrank, hle⟩)
    (Nat.le_trans (Nat.le_of_pred_lt (Nat.lt_of_not_le hge)) (Nat.le_max_right ..))

end Rank

section Headline

variable {count : Nat} (hpos : 0 < count) (hcount : count < 2 ^ 40)

include hpos hcount

theorem rankOf_fifty : rankOf (.ofMagnitude (.ofNat 50)) count = count * 50 ⌈/⌉ 100 := by
  rw [Nat.ceilDiv_eq_add_pred_div]
  have hrounded : Magnitude.rounded (2 ^ 52 * count) 1 = 2 ^ 52 * count := by
    rw [Nat.mul_comm]
    exact Magnitude.rounded_one_of_exact (Magnitude.exact_mul_two_pow (by omega) 52)
  exact hasShare_fifty.rankOf_eq hpos (by omega) (by omega) (by omega) (by omega)

theorem rankOf_ninetyNine : rankOf (.ofMagnitude (.ofNat 99)) count = count * 99 ⌈/⌉ 100 := by
  rw [Nat.ceilDiv_eq_add_pred_div]
  generalize hrank : (count * 99 + 100 - 1) / 100 = rank
  -- the share is below 99 hundredths, so the product is not rounded past the exact rank
  have hhigh : Magnitude.rounded (8917127262193582 * count) 1 ≤ rank * 2 ^ 53 :=
    Magnitude.rounded_le (Magnitude.exact_mul_two_pow (by omega) 53) (by decide) (by omega)
  obtain ⟨hbelow, -⟩ :=
    Magnitude.rounded_one_bounds (by omega : 2 ^ 52 ≤ 8917127262193582 * count)
  exact hasShare_ninetyNine.rankOf_eq hpos (by omega) (by omega) (by omega) hhigh

/-- Away from the multiples of a thousand the exact product is far enough from the next
whole number. -/
theorem rankOf_ninetyNineNine_of_ne (hcount' : count % 1000 ≠ 0) :
    rankOf (.ofMagnitude (.ofRatio 999 10)) count = count * 999 ⌈/⌉ 1000 := by
  have hrank : count * 999 ⌈/⌉ 1000 = 999 * (count / 1000) + count % 1000 := by
    rw [Nat.ceilDiv_eq_add_pred_div]
    omega
  rw [hrank]
  obtain ⟨hbelow, habove⟩ :=
    Magnitude.rounded_one_bounds (by omega : 2 ^ 52 ≤ 8998192055486252 * count)
  exact hasShare_ninetyNineNine.rankOf_eq hpos (by omega) (by omega) (by omega) (by omega)

end Headline

/-- Among `1000 * thousands` samples the rank of the percentile 99.9 is one too many: the
exact product is `999 * thousands`, and of the excess of the share more than half the
spacing of the format is left at this number. -/
def Overshoots (count : Nat) : Prop :=
  count % 1000 = 0 ∧ 2 ^ Nat.log2 (999 * (count / 1000)) < 992 * (count / 1000)

instance (count : Nat) : Decidable (Overshoots count) := inferInstanceAs (Decidable (_ ∧ _))

theorem overshoots_thousands (thousands : Nat) :
    Overshoots (1000 * thousands) ↔ 2 ^ Nat.log2 (999 * thousands) < 992 * thousands := by
  rw [Overshoots, Nat.mul_mod_right, Nat.mul_div_cancel_left _ (by decide)]
  exact and_iff_right rfl

section Thousands

variable {thousands : Nat} (hpos : 0 < thousands) (hthousands : thousands < 2 ^ 31)

include hpos hthousands

theorem log2_thousands_lt : Nat.log2 (999 * thousands) < 41 := by
  rw [Nat.log2_lt (by omega)]
  omega

/-- The spacing of the format at the product is twice the power of two below the exact
one. -/
theorem spacing_thousands :
    Magnitude.spacing (8998192055486252 * (1000 * thousands)) =
      2 ^ (Nat.log2 (999 * thousands) + 1) := by
  have hlow := Nat.log2_self_le (by omega : 999 * thousands ≠ 0)
  have hhigh : 999 * thousands < 2 ^ (Nat.log2 (999 * thousands) + 1) := Nat.lt_log2_self
  have hlog := log2_thousands_lt hpos hthousands
  generalize Nat.log2 (999 * thousands) = exponent at *
  have hlogProduct : Nat.log2 (8998192055486252 * (1000 * thousands)) = exponent + 53 := by
    rw [Nat.log2_eq_iff (by omega), Nat.add_right_comm, Nat.pow_add, Nat.pow_add]
    constructor <;> omega
  rw [Magnitude.spacing, hlogProduct]
  congr 1

/-- The product for a multiple of a thousand samples is rounded to the exact one or to the
next number of the format. -/
theorem rounded_thousands :
    Magnitude.rounded (8998192055486252 * (1000 * thousands)) 1 =
      999 * thousands * 2 ^ 53 +
        if Overshoots (1000 * thousands) then 2 ^ (Nat.log2 (999 * thousands) + 1) else 0 := by
  have hspacing := spacing_thousands hpos hthousands
  have hlog := log2_thousands_lt hpos hthousands
  have hhigh : 999 * thousands < 2 ^ (Nat.log2 (999 * thousands) + 1) := Nat.lt_log2_self
  have hovershoots := overshoots_thousands thousands
  generalize Nat.log2 (999 * thousands) = exponent at *
  -- the excess of the share is 992 parts of its last bit in a thousand samples
  have hproduct : 8998192055486252 * (1000 * thousands) =
      999 * thousands * 2 ^ 53 + 992 * thousands := by omega
  -- the exact product is an even number of the spacing, so half a spacing is rounded down
  have hsteps : 999 * thousands * 2 ^ 53 =
      2 * (999 * thousands * 2 ^ (51 - exponent)) * 2 ^ (exponent + 1) := by
    have hpow : 2 ^ 53 = 2 * (2 ^ (51 - exponent) * 2 ^ (exponent + 1)) := by
      rw [← Nat.pow_add, ← Nat.pow_succ']
      congr 1
      omega
    rw [hpow]
    ac_rfl
  have hhalf : 2 ^ (exponent + 1) < 2 * (992 * thousands) ↔ Overshoots (1000 * thousands) := by
    rw [hovershoots, Nat.pow_succ']
    omega
  rw [Magnitude.rounded, Nat.div_one, Nat.one_mul, hspacing, hproduct, hsteps,
    roundDiv_mul_add (by omega) (by omega), Nat.add_mul]
  simp only [hhalf, ite_mul, Nat.one_mul, Nat.zero_mul]

theorem rankOf_ninetyNineNine_thousands :
    rankOf (.ofMagnitude (.ofRatio 999 10)) (1000 * thousands) =
      999 * thousands + if Overshoots (1000 * thousands) then 1 else 0 := by
  have hrounded := rounded_thousands hpos hthousands
  have hstep : 2 ^ (Nat.log2 (999 * thousands) + 1) ≤ 2 ^ 41 :=
    Nat.pow_le_pow_right (by decide) (log2_thousands_lt hpos hthousands)
  have hstepPos := Nat.two_pow_pos (Nat.log2 (999 * thousands) + 1)
  generalize 2 ^ (Nat.log2 (999 * thousands) + 1) = step at *
  apply hasShare_ninetyNineNine.rankOf_eq (by omega) (by omega) (by omega)
  · rw [hrounded]
    split_ifs <;> omega
  · rw [hrounded]
    split_ifs <;> omega

end Thousands

/-- The rank of the percentile 99.9 is the exact one or, where the product overshoots, one
more. -/
theorem rankOf_ninetyNineNine {count : Nat} (hpos : 0 < count) (hcount : count < 2 ^ 40) :
    rankOf (.ofMagnitude (.ofRatio 999 10)) count =
      count * 999 ⌈/⌉ 1000 + if Overshoots count then 1 else 0 := by
  by_cases hmultiple : count % 1000 = 0
  · obtain ⟨thousands, rfl⟩ := Nat.dvd_of_mod_eq_zero hmultiple
    rw [rankOf_ninetyNineNine_thousands (by omega) (by omega), Nat.ceilDiv_eq_add_pred_div]
    congr 1
    omega
  · rw [rankOf_ninetyNineNine_of_ne hpos hcount hmultiple, if_neg fun h => hmultiple h.1,
      Nat.add_zero]

/-- Not every multiple of a thousand overshoots. -/
example : Overshoots 1000 ∧ ¬Overshoots 66000 := by decide

/-- The headline percentiles of up to `2 ^ 40` samples in the trackable range, a sample of
no time counted as one nanosecond: the median and the percentile 99 are the greatest
values equivalent to the samples of the exact nearest ranks. The percentile 99.9 is that
of the exact rank or, where the product overshoots, of the next one. -/
theorem headline_percentiles {digits : Nat} (hdigits : digits ≤ 5) {samples : List Nat}
    (hne : samples ≠ []) (hlength : samples.length < 2 ^ 40)
    (htrackable : ∀ sample ∈ samples, sample ≤ maxTrackableNanos) :
    ∃ empty, Histogram.withPrecision digits = .ok empty ∧
      let h := empty.recordAll samples
      let count := samples.length
      let atRank := fun rank => highestEquivalent digits (nthSmallest (samples.map (max · 1)) rank)
      h.p50 = atRank (count * 50 ⌈/⌉ 100) ∧ h.p99 = atRank (count * 99 ⌈/⌉ 100) ∧
        h.p999 = atRank (count * 999 ⌈/⌉ 1000 + if Overshoots count then 1 else 0) := by
  have hpos : 0 < samples.length := List.length_pos_iff.mpr hne
  have hlimit : maxTrackableNanos ≤ maxBinnedNanos := by decide
  have hbinned : ∀ sample ∈ samples, sample ≤ maxBinnedNanos := fun sample hsample =>
    Nat.le_trans (htrackable sample hsample) hlimit
  have hcounted : (samples.map (max · 1)).length = samples.length := List.length_map _
  -- each headline percentile has a share, and its rank is that of a sample
  have hvalue {percentile : Binary64} {share : Nat} (hshare : HasShare percentile share)
      {rank : Nat} (hrank : rankOf percentile samples.length = rank)
      (hle : rank ≤ samples.length) :
      (Histogram.ofValues digits (samples.map (max · 1))).valueAt percentile =
        highestEquivalent digits (nthSmallest (samples.map (max · 1)) rank) := by
    rw [← hrank] at hle ⊢
    rw [← hcounted] at hle ⊢
    rw [Histogram.valueAt_ofValues digits hle, if_neg hshare.not_isZeroShare]
  have hrecorded : ({ digits } : Histogram).recordAll samples =
      .ofValues digits (samples.map (max · 1)) := by
    rw [Histogram.recordAll_eq, map_countedAs_of_le hbinned, Histogram.ofValues]
  refine ⟨_, Histogram.withPrecision_eq hdigits, ?_⟩
  dsimp only
  rw [hrecorded]
  refine ⟨hvalue hasShare_fifty (rankOf_fifty hpos hlength) ?_,
    hvalue hasShare_ninetyNine (rankOf_ninetyNine hpos hlength) ?_,
    hvalue hasShare_ninetyNineNine (rankOf_ninetyNineNine hpos hlength) ?_⟩
  · rw [Nat.ceilDiv_eq_add_pred_div]
    omega
  · rw [Nat.ceilDiv_eq_add_pred_div]
    omega
  · rw [Nat.ceilDiv_eq_add_pred_div]
    split_ifs with hovershoots
    · have := hovershoots.1
      omega
    · omega

/-- Samples of a hundred nanoseconds each but for the last one, which took a second. -/
def thousandSamples : List Nat := List.replicate 999 100 ++ [1000000000]

theorem length_thousandSamples : thousandSamples.length = 1000 := by decide +kernel

/-- Of these samples the percentile 99.9 is the largest. -/
theorem headline_percentiles_thousand :
    (3 ≤ 5 ∧ thousandSamples ≠ [] ∧ thousandSamples.length < 2 ^ 40 ∧
        ∀ sample ∈ thousandSamples, sample ≤ maxTrackableNanos) ∧
      ∃ empty, Histogram.withPrecision 3 = .ok empty ∧
        (empty.recordAll thousandSamples).p99 =
          highestEquivalent 3 (nthSmallest (thousandSamples.map (max · 1)) 990) ∧
        (empty.recordAll thousandSamples).p999 =
          highestEquivalent 3 (nthSmallest (thousandSamples.map (max · 1)) 1000) := by
  have hdigits : 3 ≤ 5 := by decide
  have hne : thousandSamples ≠ [] := by decide
  have hlength : thousandSamples.length < 2 ^ 40 := by decide +kernel
  have htrackable : ∀ sample ∈ thousandSamples, sample ≤ maxTrackableNanos := by decide +kernel
  refine ⟨⟨hdigits, hne, hlength, htrackable⟩, ?_⟩
  obtain ⟨empty, hempty, -, hp99, hp999⟩ := headline_percentiles hdigits hne hlength htrackable
  have hrank : 1000 * 99 ⌈/⌉ 100 = 990 := by decide
  have hovershot : (1000 * 999 ⌈/⌉ 1000 + if Overshoots 1000 then 1 else 0) = 1000 := by decide
  rw [length_thousandSamples, hrank] at hp99
  rw [length_thousandSamples, hovershot] at hp999
  exact ⟨empty, hempty, hp99, hp999⟩

/-- The exact rank of the percentile 99.9 among these samples is 999. The value at it is
not that of the sample of this rank. -/
theorem headline_percentiles_ne :
    (Histogram.empty.recordAll thousandSamples).p999 ≠
      highestEquivalent 3 (nthSmallest thousandSamples (thousandSamples.length * 999 ⌈/⌉ 1000)) := by
  have hrank : 1000 * 999 ⌈/⌉ 1000 = 999 := by decide
  have hsmall : nthSmallest thousandSamples 999 ≤ 100 := by
    rw [nthSmallest_le_iff (by decide) (by rw [length_thousandSamples]; decide)]
    decide +kernel
  have hlow : highestEquivalent 3 (nthSmallest thousandSamples 999) ≤ highestEquivalent 3 100 :=
    highestEquivalent_mono 3 hsmall
  have hhigh : highestEquivalent 3 100 < (Histogram.empty.recordAll thousandSamples).p999 := by
    decide +kernel
  rw [length_thousandSamples, hrank]
  omega

end OrderStore
