import OrderStore.Latency.Histogram
import OrderStore.Proofs.Binary64.Rounding
import Mathlib.Algebra.GroupWithZero.Nat

/-!
# Bins of a histogram

A bin is what is left of a sample when its low bits are dropped. Bins divide the samples
in order, each sample lies in its own, and a bin is so narrow that its ends differ from
any sample in it by no more than the precision allows.
-/

namespace OrderStore

section Bins

variable (digits value : Nat)

/-- The samples of a bin agree in what is left without the dropped bits. -/
theorem lowestEquivalent_eq :
    lowestEquivalent digits value =
      value / 2 ^ droppedBits digits value * 2 ^ droppedBits digits value := by
  rw [lowestEquivalent, Nat.shiftLeft_eq, Nat.shiftRight_eq_div_pow]

theorem highestEquivalent_eq :
    highestEquivalent digits value =
      lowestEquivalent digits value + (2 ^ droppedBits digits value - 1) := by
  rw [highestEquivalent, Nat.one_shiftLeft]

theorem lowestEquivalent_le : lowestEquivalent digits value ≤ value := by
  rw [lowestEquivalent_eq]
  exact Nat.div_mul_le_self ..

theorem le_highestEquivalent : value ≤ highestEquivalent digits value := by
  have hpos := Nat.two_pow_pos (droppedBits digits value)
  have hsplit := Nat.div_add_mod' value (2 ^ droppedBits digits value)
  have hrest := Nat.mod_lt value hpos
  rw [highestEquivalent_eq, lowestEquivalent_eq]
  omega

theorem lowestEquivalent_le_highestEquivalent :
    lowestEquivalent digits value ≤ highestEquivalent digits value :=
  Nat.le_trans (lowestEquivalent_le ..) (le_highestEquivalent ..)

/-- At least one bit is kept. -/
theorem droppedBits_le : droppedBits digits value ≤ Nat.log2 value := by
  unfold droppedBits precisionBits
  omega

variable {value}

/-- Bins do not reach below a power of two. -/
theorem two_pow_log2_le_lowestEquivalent (hvalue : value ≠ 0) :
    2 ^ Nat.log2 value ≤ lowestEquivalent digits value := by
  have hdropped := droppedBits_le digits value
  have hpow : 2 ^ Nat.log2 value =
      2 ^ (Nat.log2 value - droppedBits digits value) * 2 ^ droppedBits digits value := by
    rw [← Nat.pow_add, Nat.sub_add_cancel hdropped]
  rw [lowestEquivalent_eq, hpow]
  apply Nat.mul_le_mul_right
  rw [Nat.le_div_iff_mul_le (Nat.two_pow_pos _), ← hpow]
  exact Nat.log2_self_le hvalue

variable (value)

/-- Bins do not reach beyond a power of two. -/
theorem highestEquivalent_lt : highestEquivalent digits value < 2 ^ (Nat.log2 value + 1) := by
  have hpos := Nat.two_pow_pos (droppedBits digits value)
  have hdropped := droppedBits_le digits value
  have hpow : 2 ^ (Nat.log2 value + 1) =
      2 ^ (Nat.log2 value + 1 - droppedBits digits value) * 2 ^ droppedBits digits value := by
    rw [← Nat.pow_add, Nat.sub_add_cancel (by omega)]
  have hquotient : value / 2 ^ droppedBits digits value <
      2 ^ (Nat.log2 value + 1 - droppedBits digits value) := by
    rw [Nat.div_lt_iff_lt_mul hpos, ← hpow]
    exact Nat.lt_log2_self
  have hnext := Nat.mul_le_mul_right (2 ^ droppedBits digits value) hquotient
  rw [Nat.succ_mul] at hnext
  rw [highestEquivalent_eq, lowestEquivalent_eq, hpow]
  omega

/-- The least value of a bin has as many bits as the others. -/
theorem log2_lowestEquivalent : Nat.log2 (lowestEquivalent digits value) = Nat.log2 value := by
  rcases Nat.eq_zero_or_pos value with rfl | hpos
  · rw [Nat.le_zero.mp (lowestEquivalent_le digits 0)]
  · have hlow := two_pow_log2_le_lowestEquivalent digits (Nat.ne_of_gt hpos)
    have hhigh := lowestEquivalent_le digits value
    have hpow := Nat.two_pow_pos (Nat.log2 value)
    rw [Nat.log2_eq_iff (by omega)]
    exact ⟨hlow, Nat.lt_of_le_of_lt hhigh Nat.lt_log2_self⟩

theorem droppedBits_lowestEquivalent :
    droppedBits digits (lowestEquivalent digits value) = droppedBits digits value := by
  rw [droppedBits, log2_lowestEquivalent, droppedBits]

/-- The least value of a bin stands for the bin. -/
theorem lowestEquivalent_lowestEquivalent :
    lowestEquivalent digits (lowestEquivalent digits value) = lowestEquivalent digits value := by
  rw [lowestEquivalent_eq digits (lowestEquivalent digits value), droppedBits_lowestEquivalent,
    lowestEquivalent_eq digits value, Nat.mul_div_cancel _ (Nat.two_pow_pos _)]

theorem highestEquivalent_lowestEquivalent :
    highestEquivalent digits (lowestEquivalent digits value) = highestEquivalent digits value := by
  rw [highestEquivalent_eq, droppedBits_lowestEquivalent, lowestEquivalent_lowestEquivalent,
    highestEquivalent_eq]

/-! ## Order -/

variable {value} {larger : Nat}

/-- Of two samples, the bin of the smaller one is the same one or ends before the powers
of two of the larger one begin. -/
theorem droppedBits_eq_or_lt (h : value ≤ larger) :
    droppedBits digits value = droppedBits digits larger ∨
      highestEquivalent digits value < lowestEquivalent digits larger := by
  rcases Nat.eq_zero_or_pos larger with rfl | hpos
  · rw [Nat.le_zero.mp h]
    exact Or.inl rfl
  · rcases Nat.lt_or_ge (Nat.log2 value) (Nat.log2 larger) with hlt | hge
    · right
      calc highestEquivalent digits value < 2 ^ (Nat.log2 value + 1) := highestEquivalent_lt ..
        _ ≤ 2 ^ Nat.log2 larger := Nat.pow_le_pow_right (by decide) hlt
        _ ≤ lowestEquivalent digits larger :=
          two_pow_log2_le_lowestEquivalent digits (Nat.ne_of_gt hpos)
    · left
      have := log2_mono h
      rw [droppedBits, droppedBits]
      omega

theorem lowestEquivalent_mono (h : value ≤ larger) :
    lowestEquivalent digits value ≤ lowestEquivalent digits larger := by
  rcases droppedBits_eq_or_lt digits h with hdropped | hlt
  · rw [lowestEquivalent_eq, lowestEquivalent_eq, hdropped]
    exact Nat.mul_le_mul_right _ (Nat.div_le_div_right h)
  · exact Nat.le_trans (lowestEquivalent_le_highestEquivalent ..) (Nat.le_of_lt hlt)

theorem highestEquivalent_mono (h : value ≤ larger) :
    highestEquivalent digits value ≤ highestEquivalent digits larger := by
  rcases droppedBits_eq_or_lt digits h with hdropped | hlt
  · rw [highestEquivalent_eq, highestEquivalent_eq, hdropped]
    exact Nat.add_le_add_right (lowestEquivalent_mono digits h) _
  · exact Nat.le_trans (Nat.le_of_lt hlt) (lowestEquivalent_le_highestEquivalent ..)

/-! ## Width -/

variable (value)

/-- Enough bits are kept to tell apart twice as many values as the digits can. -/
theorem two_mul_ten_pow_le : 2 * 10 ^ digits ≤ 2 ^ precisionBits digits := by
  have hpow : 0 < 10 ^ digits := Nat.pow_pos (by decide)
  have hbits : 2 * Nat.pow 10 digits - 1 < 2 ^ precisionBits digits := Nat.lt_log2_self
  change 2 * 10 ^ digits - 1 < _ at hbits
  omega

/-- A bin is narrow beside the samples in it. -/
theorem width_mul_le : (2 ^ droppedBits digits value - 1) * 10 ^ digits ≤ value := by
  rcases Nat.eq_zero_or_pos (droppedBits digits value) with hzero | hdropped
  · rw [hzero, Nat.pow_zero, Nat.sub_self, Nat.zero_mul]
    exact Nat.zero_le _
  · have hbits : droppedBits digits value + precisionBits digits = Nat.log2 value + 1 := by
      unfold droppedBits at hdropped ⊢
      omega
    have hne : value ≠ 0 := by
      rintro rfl
      have := droppedBits_le digits 0
      rw [Nat.log2_zero] at this
      omega
    have hdouble : 2 * (2 ^ droppedBits digits value * 10 ^ digits) ≤ 2 * 2 ^ Nat.log2 value :=
      calc 2 * (2 ^ droppedBits digits value * 10 ^ digits)
          = 2 ^ droppedBits digits value * (2 * 10 ^ digits) := Nat.mul_left_comm ..
        _ ≤ 2 ^ droppedBits digits value * 2 ^ precisionBits digits :=
          Nat.mul_le_mul_left _ (two_mul_ten_pow_le digits)
        _ = 2 * 2 ^ Nat.log2 value := by rw [← Nat.pow_add, hbits, Nat.pow_succ']
    calc (2 ^ droppedBits digits value - 1) * 10 ^ digits
        ≤ 2 ^ droppedBits digits value * 10 ^ digits := Nat.mul_le_mul_right _ (Nat.sub_le ..)
      _ ≤ 2 ^ Nat.log2 value := Nat.le_of_mul_le_mul_left hdouble (by decide)
      _ ≤ value := Nat.log2_self_le hne

/-- The greatest value of a bin is a sample of it up to the precision. -/
theorem highestEquivalent_sub_mul_le :
    (highestEquivalent digits value - value) * 10 ^ digits ≤ value := by
  have hlow := lowestEquivalent_le digits value
  have hwidth : highestEquivalent digits value - value ≤ 2 ^ droppedBits digits value - 1 := by
    rw [highestEquivalent_eq]
    omega
  exact Nat.le_trans (Nat.mul_le_mul_right _ hwidth) (width_mul_le ..)

/-- The least value of a bin is a sample of it up to the precision. -/
theorem sub_lowestEquivalent_mul_le :
    (value - lowestEquivalent digits value) * 10 ^ digits ≤ value := by
  have hhigh := le_highestEquivalent digits value
  have hwidth : value - lowestEquivalent digits value ≤ 2 ^ droppedBits digits value - 1 := by
    rw [highestEquivalent_eq] at hhigh
    omega
  exact Nat.le_trans (Nat.mul_le_mul_right _ hwidth) (width_mul_le ..)

variable {value}

/-- No bin reaches beyond what the bins can hold. -/
theorem highestEquivalent_le (h : value ≤ maxBinnedNanos) :
    highestEquivalent digits value ≤ maxBinnedNanos := by
  have hlast := highestEquivalent_lt digits maxBinnedNanos
  have hbits : 2 ^ (Nat.log2 maxBinnedNanos + 1) = maxBinnedNanos + 1 := by decide
  have hmono := highestEquivalent_mono digits h
  omega

end Bins

end OrderStore
