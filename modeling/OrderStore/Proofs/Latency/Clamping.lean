import OrderStore.Proofs.Latency.Ranks
import Mathlib.Data.List.Forall2

/-!
# Samples outside of the trackable range

Samples are brought into the range from one nanosecond to one minute, but for those above
a minute that the bins can still hold: they count as they are. So a larger sample never
makes for a lower percentile unless it is too large for the bins and the smaller one is
not, and then it may.
-/

namespace OrderStore

/-- A sample brought into the trackable range. -/
def clamped (sample : Nat) : Nat := min (max sample 1) maxTrackableNanos

/-- A sample above the trackable range that the bins can hold all the same. -/
def BeyondRange (sample : Nat) : Prop := maxTrackableNanos < sample ∧ sample ≤ maxBinnedNanos

instance (sample : Nat) : Decidable (BeyondRange sample) := inferInstanceAs (Decidable (_ ∧ _))

theorem maxTrackableNanos_lt : maxTrackableNanos < maxBinnedNanos := by decide

theorem countedAs_eq (sample : Nat) :
    countedAs sample = if BeyondRange sample then sample else clamped sample := by
  have hone : 1 ≤ maxTrackableNanos := by decide
  have hlt := maxTrackableNanos_lt
  by_cases hbeyond : BeyondRange sample
  · obtain ⟨habove, hbinned⟩ := hbeyond
    rw [if_pos ⟨habove, hbinned⟩, countedAs, if_neg (by omega)]
    omega
  · rw [if_neg hbeyond]
    unfold BeyondRange at hbeyond
    unfold countedAs clamped
    split_ifs <;> omega

/-- A value that is counted counts as itself. -/
theorem countedAs_countedAs (sample : Nat) : countedAs (countedAs sample) = countedAs sample := by
  have hone : 1 ≤ maxTrackableNanos := by decide
  have hlt := maxTrackableNanos_lt
  have hle := countedAs_le sample
  rw [countedAs, if_neg (by omega)]
  unfold countedAs
  split_ifs <;> omega

theorem countedAs_le_of_le {sample larger : Nat} (h : sample ≤ larger)
    (hbeyond : BeyondRange sample → larger ≤ maxBinnedNanos) :
    countedAs sample ≤ countedAs larger := by
  have hone : 1 ≤ maxTrackableNanos := by decide
  have hlt := maxTrackableNanos_lt
  unfold BeyondRange at hbeyond
  unfold countedAs
  split_ifs <;> omega

section Forall₂

variable {values larger : List Nat} (h : List.Forall₂ (· ≤ ·) values larger)

include h

theorem countP_le_of_forall₂ (bound : Nat) :
    larger.countP (· ≤ bound) ≤ values.countP (· ≤ bound) := by
  induction h with
  | nil => exact Nat.le_refl _
  | cons hle _ ih =>
    rw [List.countP_cons, List.countP_cons]
    simp only [decide_eq_true_eq]
    split_ifs <;> omega

/-- The value of a rank does not become smaller when the values do not. -/
theorem nthSmallest_le_of_forall₂ {rank : Nat} (hpos : 0 < rank) (hrank : rank ≤ values.length) :
    nthSmallest values rank ≤ nthSmallest larger rank := by
  have hrank' : rank ≤ larger.length := h.length_eq ▸ hrank
  have hself := (nthSmallest_le_iff hpos hrank' _).mp (Nat.le_refl (nthSmallest larger rank))
  exact (nthSmallest_le_iff hpos hrank _).mpr (Nat.le_trans hself (countP_le_of_forall₂ h _))

end Forall₂

/-- Whatever is told of one histogram is no lower than what is told of another one with as
many samples. -/
structure NoLower (h higher : Histogram) : Prop where
  /-- There are as many samples. -/
  count_eq : higher.count = h.count
  /-- The minimum is no lower. -/
  min_le : h.min ≤ higher.min
  /-- The value at no percentile is lower. -/
  valueAt_le : ∀ percentile, h.valueAt percentile ≤ higher.valueAt percentile
  /-- The maximum is no lower. -/
  max_le : h.max ≤ higher.max

/-- Counting values that are no smaller makes nothing lower. -/
theorem noLower_ofValues (digits : Nat) {values larger : List Nat}
    (h : List.Forall₂ (· ≤ ·) values larger) :
    NoLower (.ofValues digits values) (.ofValues digits larger) := by
  have hlength := h.length_eq
  rcases eq_or_ne values [] with rfl | hne
  · obtain rfl : larger = [] := List.forall₂_nil_left_iff.mp h
    exact ⟨rfl, Nat.le_refl _, fun _ => Nat.le_refl _, Nat.le_refl _⟩
  · have hpos : 0 < values.length := List.length_pos_iff.mpr hne
    have hne' : larger ≠ [] := List.length_pos_iff.mp (hlength ▸ hpos)
    constructor
    · rw [Histogram.count_ofValues, Histogram.count_ofValues, hlength]
    · rw [Histogram.min_ofValues digits hne, Histogram.min_ofValues digits hne']
      exact lowestEquivalent_mono digits (nthSmallest_le_of_forall₂ h (by decide) hpos)
    · intro percentile
      rcases Nat.lt_or_ge values.length (rankOf percentile values.length) with hlt | hrank
      · rw [Histogram.valueAt_ofValues_of_lt digits hlt]
        exact Nat.zero_le _
      · have hrank' : rankOf percentile larger.length ≤ larger.length := hlength ▸ hrank
        have hvalue := nthSmallest_le_of_forall₂ h (rankOf_pos percentile values.length) hrank
        rw [Histogram.valueAt_ofValues digits hrank, Histogram.valueAt_ofValues digits hrank',
          ← hlength]
        split_ifs
        · exact lowestEquivalent_mono digits hvalue
        · exact highestEquivalent_mono digits hvalue
    · rw [Histogram.max_ofValues digits hne, Histogram.max_ofValues digits hne', ← hlength]
      exact highestEquivalent_mono digits (nthSmallest_le_of_forall₂ h hpos (Nat.le_refl _))

/-- Recording counts each sample as brought into the trackable range, unless it lies above
the range and the bins can hold it: then it counts as it is. So no percentile and neither
extreme is lower for samples that are no smaller, as long as none of the samples beyond
the range is raised above what the bins can hold. -/
theorem recordAll_clamped {digits : Nat} (hdigits : digits ≤ 5) :
    ∃ empty, Histogram.withPrecision digits = .ok empty ∧
      (∀ samples, empty.recordAll samples = empty.recordAll
        (samples.map fun sample => if BeyondRange sample then sample else clamped sample)) ∧
      ∀ samples raised, List.Forall₂ (fun sample larger =>
          sample ≤ larger ∧ (BeyondRange sample → larger ≤ maxBinnedNanos)) samples raised →
        NoLower (empty.recordAll samples) (empty.recordAll raised) := by
  refine ⟨_, Histogram.withPrecision_eq hdigits, fun samples => ?_, fun samples raised h => ?_⟩
  · have hcounted : (fun sample => if BeyondRange sample then sample else clamped sample) =
        countedAs := funext fun sample => (countedAs_eq sample).symm
    rw [hcounted, Histogram.recordAll_eq, Histogram.recordAll_eq, List.map_map]
    congr 1
    exact List.map_congr_left fun sample _ => (countedAs_countedAs sample).symm
  · rw [Histogram.recordAll_eq, Histogram.recordAll_eq]
    apply noLower_ofValues
    rw [List.forall₂_map_left_iff, List.forall₂_map_right_iff]
    exact h.imp fun sample larger hle => countedAs_le_of_le hle.1 hle.2

/-- A sample of no time counts as one nanosecond, one beyond the range as it is and one
that no bin can hold as a minute; the second may be raised within the bins. -/
theorem recordAll_clamped_beyond :
    3 ≤ 5 ∧ ∃ empty, Histogram.withPrecision 3 = .ok empty ∧
      empty.recordAll [0, 65000000000, 70000000000] =
        empty.recordAll [1, 65000000000, 60000000000] ∧
      NoLower (empty.recordAll [0, 65000000000]) (empty.recordAll [7, 66000000000]) := by
  have hdigits : 3 ≤ 5 := by decide
  obtain ⟨empty, hempty, hcounted, hraised⟩ := recordAll_clamped hdigits
  refine ⟨hdigits, empty, hempty, ?_, hraised _ _ ?_⟩
  · have hsamples : ([0, 65000000000, 70000000000].map fun sample =>
        if BeyondRange sample then sample else clamped sample) =
          [1, 65000000000, 60000000000] := by decide
    rw [hcounted, hsamples]
  · exact .cons (by decide) (.cons (by decide) .nil)

/-- A sample of 65 seconds is not brought into the range: its maximum is another one than
that of the sample brought into the range, and it is above that of 70 seconds. -/
theorem recordAll_clamped_ne :
    let h := Histogram.empty
    (h.recordAll [65000000000]).max ≠ (h.recordAll ([65000000000].map clamped)).max ∧
      (h.recordAll [70000000000]).max < (h.recordAll [65000000000]).max := by
  decide +kernel

end OrderStore
