import OrderStore.Proofs.Latency.Ranks

/-!
# Percentiles are as accurate as the precision says

A histogram of a precision, filled by recording and by merging others of that precision,
gives for a percentile an end of the bin of the sample of that rank. Samples and ends of
their bins differ by less than the digits that are kept.
-/

namespace OrderStore

/-- How a histogram came about, beginning with an empty one. -/
inductive Filling where
  /-- It is empty. -/
  | new
  /-- It recorded a sample. -/
  | record (before : Filling) (sample : Nat)
  /-- Another one of the same precision was merged into it. -/
  | merge (target source : Filling)

namespace Filling

/-- The samples that were recorded on the way. -/
def samples : Filling → List Nat
  | new => []
  | record before sample => before.samples ++ [sample]
  | merge target source => target.samples ++ source.samples

/-- The histogram that comes about from empty ones, unless one of the merges fails. -/
def histogram? (empty : Histogram) : Filling → Except Histogram.MergeError Histogram
  | new => .ok empty
  | record before sample => do return (← before.histogram? empty).record sample
  | merge target source => do (← target.histogram? empty).merge? (← source.histogram? empty)

/-- The histogram is one that counted the samples itself. -/
theorem histogram?_eq (digits : Nat) (f : Filling) :
    f.histogram? { digits } = .ok (.ofValues digits (f.samples.map countedAs)) := by
  induction f with
  | new => rfl
  | record before sample ih =>
    rw [histogram?, ih, samples, List.map_append, Histogram.ofValues_append]
    rfl
  | merge target source iht ihs =>
    have hbinned : ∀ value ∈ source.samples.map countedAs, value ≤ maxBinnedNanos := by
      simp [countedAs_le]
    rw [histogram?, iht, ihs]
    change (Histogram.ofValues digits _).merge? (Histogram.ofValues digits _) = _
    rw [Histogram.merge?_ofValues digits _ hbinned, Histogram.merge_ofValues,
      if_pos (Histogram.digits_ofValues ..), samples, List.map_append, Histogram.ofValues_append]

end Filling

/-- An answer lies above the value it stands for, by less than `digits` digits can
tell. -/
def CloseAbove (digits value answer : Nat) : Prop :=
  value ≤ answer ∧ (answer - value) * 10 ^ digits ≤ value

/-- An answer lies below the value it stands for, by less than `digits` digits can
tell. -/
def CloseBelow (digits value answer : Nat) : Prop :=
  answer ≤ value ∧ (value - answer) * 10 ^ digits ≤ value

theorem closeAbove_highestEquivalent (digits value : Nat) :
    CloseAbove digits value (highestEquivalent digits value) :=
  ⟨le_highestEquivalent .., highestEquivalent_sub_mul_le ..⟩

theorem closeBelow_lowestEquivalent (digits value : Nat) :
    CloseBelow digits value (lowestEquivalent digits value) :=
  ⟨lowestEquivalent_le .., sub_lowestEquivalent_mul_le ..⟩

/-- A histogram keeps its digits. However it was filled, by recording samples the bins can
hold and by merging histograms of the same precision: no merge fails, every sample is
counted, and for a percentile of which the share is not zero and whose rank some sample
has, the value at the percentile lies above the sample of that rank by no more than one
part in `10 ^ digits`. So do the maximum above the largest sample and the minimum below
the smallest. -/
theorem values_accurate {digits : Nat} (hdigits : digits ≤ 5) {f : Filling}
    (hne : f.samples ≠ []) (hbinned : ∀ sample ∈ f.samples, sample ≤ maxBinnedNanos) :
    ∃ empty h, Histogram.withPrecision digits = .ok empty ∧ f.histogram? empty = .ok h ∧
      let counted := f.samples.map (max · 1)
      h.count = f.samples.length ∧
      (∀ percentile, ¬IsZeroShare percentile → rankOf percentile h.count ≤ h.count →
        CloseAbove digits (nthSmallest counted (rankOf percentile h.count))
          (h.valueAt percentile)) ∧
      CloseAbove digits (nthSmallest counted counted.length) h.max ∧
      CloseBelow digits (nthSmallest counted 1) h.min := by
  have hcounted := map_countedAs_of_le hbinned
  have hne' : f.samples.map (max · 1) ≠ [] := by simpa using hne
  refine ⟨_, _, Histogram.withPrecision_eq hdigits, f.histogram?_eq digits, ?_⟩
  rw [hcounted]
  intro counted
  have hcount : (Histogram.ofValues digits counted).count = counted.length :=
    Histogram.count_ofValues ..
  refine ⟨hcount.trans (List.length_map _), ?_, ?_, ?_⟩
  · intro percentile hshare hrank
    rw [hcount] at hrank ⊢
    rw [Histogram.valueAt_ofValues digits hrank, if_neg hshare]
    exact closeAbove_highestEquivalent ..
  · rw [Histogram.max_ofValues digits hne']
    exact closeAbove_highestEquivalent ..
  · rw [Histogram.min_ofValues digits hne']
    exact closeBelow_lowestEquivalent ..

/-- Two digits of three samples, one of no time, that were merged from two histograms. -/
theorem values_accurate_merged :
    let f := ((Filling.new.record 0).record 1000003).merge (Filling.new.record 70001)
    (2 ≤ 5 ∧ f.samples ≠ [] ∧ ∀ sample ∈ f.samples, sample ≤ maxBinnedNanos) ∧
      ∃ empty h, Histogram.withPrecision 2 = .ok empty ∧ f.histogram? empty = .ok h ∧
        h.count = 3 ∧ CloseAbove 2 70001 h.p50 ∧ CloseAbove 2 1000003 h.max ∧
        CloseBelow 2 1 h.min := by
  intro f
  have hdigits : 2 ≤ 5 := by decide
  have hne : f.samples ≠ [] := by decide
  have hbinned : ∀ sample ∈ f.samples, sample ≤ maxBinnedNanos := by decide
  refine ⟨⟨hdigits, hne, hbinned⟩, ?_⟩
  obtain ⟨empty, h, hempty, hfilled, hcount, hvalues, hmax, hmin⟩ :=
    values_accurate hdigits hne hbinned
  have hlength : h.count = 3 := hcount
  have hrank : rankOf (.ofMagnitude (.ofNat 50)) 3 = 2 := by decide +kernel
  have hsamples (rank : Nat) : nthSmallest (f.samples.map (max · 1)) rank =
      [1, 70001, 1000003].getD (rank - 1) 0 := by
    simp [f, Filling.samples, nthSmallest, List.mergeSort]
  have hmedian := hvalues (.ofMagnitude (.ofNat 50)) (by decide +kernel)
    (by rw [hlength, hrank]; decide)
  rw [hlength, hrank, hsamples] at hmedian
  rw [hsamples] at hmax hmin
  exact ⟨empty, h, hempty, hfilled, hlength, hmedian, hmax, hmin⟩

end OrderStore
