import OrderStore.Binary64.Magnitude
import Mathlib.Algebra.GroupWithZero.Nat
import Mathlib.Tactic.SplitIfs

/-!
# Rounding to the binary64 format

All arithmetic of magnitudes is a quotient of natural numbers that is rounded once, so
what is known of that rounding is known of all of it: it keeps the order, leaves every
number of the format as it is, and is off by at most half the spacing of the format.
-/

namespace OrderStore

/-! ## The rounded quotient -/

section RoundDiv

variable {num den : Nat}

/-- The rounded quotient is one of the two neighbours, and no farther away than the
other. -/
theorem roundDiv_cases (num den : Nat) :
    (roundDiv num den = num / den ∧ 2 * (num % den) ≤ den) ∨
      (roundDiv num den = num / den + 1 ∧ den ≤ 2 * (num % den)) := by
  unfold roundDiv
  dsimp only
  split_ifs <;> omega

/-- Rounding is up by at most half. -/
theorem two_mul_roundDiv_mul_le (num : Nat) (hden : 0 < den) :
    2 * (roundDiv num den * den) ≤ 2 * num + den := by
  have hsplit := Nat.div_add_mod' num den
  rcases roundDiv_cases num den with ⟨hround, -⟩ | ⟨hround, hhalf⟩
  · rw [hround]
    omega
  · have hrest := Nat.mod_lt num hden
    rw [hround, Nat.add_one_mul (num / den)]
    omega

/-- Rounding is down by at most half. -/
theorem two_mul_le_roundDiv_mul (num : Nat) (hden : 0 < den) :
    2 * num ≤ 2 * (roundDiv num den * den) + den := by
  have hsplit := Nat.div_add_mod' num den
  rcases roundDiv_cases num den with ⟨hround, hhalf⟩ | ⟨hround, -⟩
  · rw [hround]
    omega
  · have hrest := Nat.mod_lt num hden
    rw [hround, Nat.add_one_mul (num / den)]
    omega

theorem roundDiv_mono {num' : Nat} (h : num ≤ num') : roundDiv num den ≤ roundDiv num' den := by
  have hfloor : num / den ≤ num' / den := Nat.div_le_div_right h
  rcases Nat.lt_or_eq_of_le hfloor with hlt | heq
  · -- the first quotient is rounded to the next whole number at most
    have hfirst := roundDiv_cases num den
    have hsecond := roundDiv_cases num' den
    omega
  · have hsplit := Nat.div_add_mod' num den
    have hsplit' := Nat.div_add_mod' num' den
    have hrest : num % den ≤ num' % den := by
      rw [heq] at hsplit
      omega
    unfold roundDiv
    dsimp only
    rw [heq]
    split_ifs <;> omega

/-- A whole number stays as it is. -/
theorem roundDiv_mul_self (n : Nat) (hden : 0 < den) : roundDiv (n * den) den = n := by
  unfold roundDiv
  dsimp only
  rw [Nat.mul_mod_left, Nat.mul_div_cancel _ hden, if_pos (by omega)]

/-- Between an even number and the next one only more than half is rounded up. -/
theorem roundDiv_mul_add {n rest : Nat} (heven : n % 2 = 0) (hrest : rest < den) :
    roundDiv (n * den + rest) den = n + if den < 2 * rest then 1 else 0 := by
  have hfloor : (n * den + rest) / den = n := by
    rw [Nat.mul_comm, Nat.mul_add_div (Nat.zero_lt_of_lt hrest), Nat.div_eq_of_lt hrest,
      Nat.add_zero]
  have hmod : (n * den + rest) % den = rest := by
    rw [Nat.mul_comm, Nat.mul_add_mod, Nat.mod_eq_of_lt hrest]
  unfold roundDiv
  dsimp only
  rw [hfloor, hmod, heven]
  split_ifs <;> omega

/-- A common factor does not matter. -/
theorem roundDiv_mul_mul_right {factor : Nat} (hfactor : 0 < factor) :
    roundDiv (num * factor) (den * factor) = roundDiv num den := by
  unfold roundDiv
  dsimp only
  rw [Nat.mul_div_mul_right _ _ hfactor, Nat.mul_mod_mul_right, ← Nat.mul_assoc]
  simp only [Nat.mul_lt_mul_right hfactor]

/-- What is at most a multiple of the step is not rounded beyond it. -/
theorem roundDiv_mul_le {step bound : Nat} (hstep : 0 < step) (hden : 0 < den)
    (hbound : step ∣ bound) (h : num ≤ bound * den) : roundDiv num (den * step) * step ≤ bound := by
  obtain ⟨steps, rfl⟩ := hbound
  have hpos : 0 < den * step := Nat.mul_pos hden hstep
  have hle : num ≤ steps * (den * step) := by
    calc num ≤ step * steps * den := h
      _ = steps * (den * step) := by ac_rfl
  have hround : roundDiv num (den * step) ≤ steps := by
    calc roundDiv num (den * step) ≤ roundDiv (steps * (den * step)) (den * step) :=
          roundDiv_mono hle
      _ = steps := roundDiv_mul_self _ hpos
  rw [Nat.mul_comm step]
  exact Nat.mul_le_mul_right step hround

/-- What is at least a multiple of the step is not rounded below it. -/
theorem le_roundDiv_mul {step bound : Nat} (hstep : 0 < step) (hden : 0 < den)
    (hbound : step ∣ bound) (h : bound * den ≤ num) : bound ≤ roundDiv num (den * step) * step := by
  obtain ⟨steps, rfl⟩ := hbound
  have hpos : 0 < den * step := Nat.mul_pos hden hstep
  have hle : steps * (den * step) ≤ num := by
    calc steps * (den * step) = step * steps * den := by ac_rfl
      _ ≤ num := h
  have hround : steps ≤ roundDiv num (den * step) := by
    calc steps = roundDiv (steps * (den * step)) (den * step) := (roundDiv_mul_self _ hpos).symm
      _ ≤ roundDiv num (den * step) := roundDiv_mono hle
  rw [Nat.mul_comm step]
  exact Nat.mul_le_mul_right step hround

end RoundDiv

/-! ## Bits of a number -/

theorem log2_mono {m n : Nat} (h : m ≤ n) : Nat.log2 m ≤ Nat.log2 n := by
  rcases Nat.eq_zero_or_pos m with rfl | hpos
  · rw [Nat.log2_zero]
    exact Nat.zero_le _
  · rw [Nat.le_log2 (by omega)]
    exact Nat.le_trans (Nat.log2_self_le (Nat.ne_of_gt hpos)) h

theorem log2_mul_two_pow {n : Nat} (hn : n ≠ 0) (k : Nat) :
    Nat.log2 (n * 2 ^ k) = Nat.log2 n + k := by
  have hne : n * 2 ^ k ≠ 0 := Nat.mul_ne_zero hn (Nat.ne_of_gt (Nat.two_pow_pos k))
  rw [Nat.log2_eq_iff hne, Nat.pow_add, Nat.add_right_comm, Nat.pow_add (n := k)]
  exact ⟨Nat.mul_le_mul_right _ (Nat.log2_self_le hn),
    Nat.mul_lt_mul_of_pos_right Nat.lt_log2_self (Nat.two_pow_pos k)⟩

namespace Magnitude

/-! ## The numbers of the format -/

/-- The distance between neighbours of the format at `n` units. -/
def spacing (n : Nat) : Nat := 2 ^ (Nat.log2 n - 52)

/-- A number of units is one of the format. -/
def Exact (n : Nat) : Prop := spacing n ∣ n

theorem spacing_pos (n : Nat) : 0 < spacing n := Nat.two_pow_pos _

/-- The spacing is small beside the numbers it is the spacing of. -/
theorem spacing_mul_le {n : Nat} (h : 2 ^ 52 ≤ n) : spacing n * 2 ^ 52 ≤ n := by
  have hne : n ≠ 0 := by
    have := Nat.two_pow_pos 52
    omega
  have hlog : 52 ≤ Nat.log2 n := (Nat.le_log2 hne).mpr h
  rw [spacing, ← Nat.pow_add, Nat.sub_add_cancel hlog]
  exact Nat.log2_self_le hne

theorem spacing_le {n k : Nat} (h : n < 2 ^ (k + 53)) : spacing n ≤ 2 ^ k := by
  have hlog : Nat.log2 n ≤ k + 52 := by
    rcases Nat.eq_zero_or_pos n with rfl | hpos
    · rw [Nat.log2_zero]
      exact Nat.zero_le _
    · exact Nat.le_of_lt_succ ((Nat.log2_lt (Nat.ne_of_gt hpos)).mpr h)
  exact Nat.pow_le_pow_right (by decide) (by omega)

/-- Numbers of at most 53 bits, in units of any power of two, are in the format. -/
theorem exact_mul_two_pow {n : Nat} (hn : n ≤ 2 ^ 53) (k : Nat) : Exact (n * 2 ^ k) := by
  rcases Nat.eq_zero_or_pos n with rfl | hpos
  · rw [Nat.zero_mul]
    exact Nat.dvd_zero _
  · rw [Exact, spacing, log2_mul_two_pow (Nat.ne_of_gt hpos)]
    rcases Nat.lt_or_eq_of_le hn with hlt | rfl
    · have hlog : Nat.log2 n < 53 := (Nat.log2_lt (Nat.ne_of_gt hpos)).mpr hlt
      exact Nat.dvd_mul_left_of_dvd (Nat.pow_dvd_pow 2 (by omega)) n
    · rw [Nat.log2_two_pow, ← Nat.pow_add]
      exact Nat.pow_dvd_pow 2 (by omega)

theorem exact_mul_shiftLeft {n : Nat} (hn : n ≤ 2 ^ 53) (k : Nat) : Exact (n * 1 <<< k) := by
  rw [Nat.one_shiftLeft]
  exact exact_mul_two_pow hn k

/-! ## Rounding to the format -/

/-- How many units a quotient of units is rounded to. -/
def rounded (num den : Nat) : Nat :=
  roundDiv num (den * spacing (num / den)) * spacing (num / den)

theorem units_ofRatio (num den : Nat) : (ofRatio num den).units = rounded (num * unitsInOne) den := by
  rw [ofRatio, rounded, spacing, Nat.one_shiftLeft]

section Rounded

variable {num den : Nat}

/-- A number of the format stays as it is. -/
theorem rounded_of_exact {n : Nat} (h : Exact n) (hden : 0 < den) : rounded (n * den) den = n := by
  rw [rounded, Nat.mul_div_cancel _ hden]
  exact Nat.le_antisymm (roundDiv_mul_le (spacing_pos n) hden h (Nat.le_refl _))
    (le_roundDiv_mul (spacing_pos n) hden h (Nat.le_refl _))

theorem rounded_one_of_exact {n : Nat} (h : Exact n) : rounded n 1 = n := by
  have hround := rounded_of_exact h (by decide : 0 < 1)
  rwa [Nat.mul_one] at hround

/-- Rounding keeps the order. -/
theorem rounded_mono {num' : Nat} (h : num ≤ num') (hden : 0 < den) :
    rounded num den ≤ rounded num' den := by
  have hquotient : num / den ≤ num' / den := Nat.div_le_div_right h
  rw [rounded, rounded]
  by_cases hlog : Nat.log2 (num / den) - 52 = Nat.log2 (num' / den) - 52
  · -- with one spacing it is one rounded division
    have hspacing : spacing (num / den) = spacing (num' / den) := by rw [spacing, hlog, spacing]
    rw [hspacing]
    exact Nat.mul_le_mul_right _ (roundDiv_mono h)
  · -- with two there is a power of two between the numbers, which neither is rounded past
    have hlogs : Nat.log2 (num / den) < Nat.log2 (num' / den) := by
      have := log2_mono hquotient
      omega
    generalize hexponent : Nat.log2 (num' / den) = exponent at hlog hlogs
    have hbelow : num ≤ 2 ^ exponent * den := by
      have hlt : num / den < 2 ^ exponent :=
        calc num / den < 2 ^ (Nat.log2 (num / den) + 1) := Nat.lt_log2_self
          _ ≤ 2 ^ exponent := Nat.pow_le_pow_right (by decide) hlogs
      exact Nat.le_of_lt ((Nat.div_lt_iff_lt_mul hden).mp hlt)
    have habove : 2 ^ exponent * den ≤ num' := by
      have hne : num' / den ≠ 0 := by
        intro hzero
        rw [hzero, Nat.log2_zero] at hexponent
        omega
      have hle : 2 ^ exponent ≤ num' / den := hexponent ▸ Nat.log2_self_le hne
      exact (Nat.le_div_iff_mul_le hden).mp hle
    exact Nat.le_trans
      (roundDiv_mul_le (spacing_pos _) hden (Nat.pow_dvd_pow 2 (by omega)) hbelow)
      (le_roundDiv_mul (spacing_pos _) hden (Nat.pow_dvd_pow 2 (by omega)) habove)

/-- What is at most a number of the format is not rounded beyond it. -/
theorem rounded_le {n : Nat} (hn : Exact n) (hden : 0 < den) (h : num ≤ n * den) :
    rounded num den ≤ n :=
  Nat.le_trans (rounded_mono h hden) (Nat.le_of_eq (rounded_of_exact hn hden))

/-- A common factor does not matter. -/
theorem rounded_mul_mul_right {factor : Nat} (hfactor : 0 < factor) :
    rounded (num * factor) (den * factor) = rounded num den := by
  rw [rounded, Nat.mul_div_mul_right _ _ hfactor, Nat.mul_right_comm den,
    roundDiv_mul_mul_right hfactor, rounded]

/-- Rounding is up by at most half the spacing. -/
theorem two_mul_rounded_mul_le (num : Nat) (hden : 0 < den) :
    2 * (rounded num den * den) ≤ 2 * num + den * spacing (num / den) := by
  have hround := two_mul_roundDiv_mul_le num (Nat.mul_pos hden (spacing_pos (num / den)))
  rw [rounded, Nat.mul_assoc, Nat.mul_comm (spacing _)]
  exact hround

/-- Rounding is down by at most half the spacing. -/
theorem two_mul_le_rounded_mul (num : Nat) (hden : 0 < den) :
    2 * num ≤ 2 * (rounded num den * den) + den * spacing (num / den) := by
  have hround := two_mul_le_roundDiv_mul num (Nat.mul_pos hden (spacing_pos (num / den)))
  rw [rounded, Nat.mul_assoc, Nat.mul_comm (spacing _)]
  exact hround

/-- A number of 53 bits or more is off by at most one part in `2 ^ 53`. -/
theorem rounded_one_bounds {n : Nat} (hn : 2 ^ 52 ≤ n) :
    2 ^ 53 * n ≤ 2 ^ 53 * rounded n 1 + n ∧ 2 ^ 53 * rounded n 1 ≤ 2 ^ 53 * n + n := by
  have hup := two_mul_rounded_mul_le n (by decide : 0 < 1)
  have hdown := two_mul_le_rounded_mul n (by decide : 0 < 1)
  have hspacing := spacing_mul_le hn
  rw [Nat.mul_one, Nat.one_mul, Nat.div_one] at hup hdown
  omega

/-- With 53 bits or more the unit does not matter. -/
theorem rounded_mul_two_pow {n : Nat} (hn : 2 ^ 52 ≤ n) (k : Nat) :
    rounded (n * 2 ^ k) 1 = rounded n 1 * 2 ^ k := by
  have hpow : 0 < 2 ^ k := Nat.two_pow_pos k
  have hne : n ≠ 0 := by
    have := Nat.two_pow_pos 52
    omega
  have hlog : 52 ≤ Nat.log2 n := (Nat.le_log2 hne).mpr hn
  have hspacing : spacing (n * 2 ^ k) = spacing n * 2 ^ k := by
    rw [spacing, spacing, log2_mul_two_pow hne, Nat.sub_add_comm hlog, Nat.pow_add]
  rw [rounded, rounded, Nat.div_one, Nat.div_one, Nat.one_mul, Nat.one_mul, hspacing,
    roundDiv_mul_mul_right hpow, Nat.mul_assoc]

end Rounded

/-! ## Operations -/

theorem unitsInOne_pos : 0 < unitsInOne := by decide

theorem exact_mul_unitsInOne {n : Nat} (hn : n ≤ 2 ^ 53) : Exact (n * unitsInOne) :=
  exact_mul_shiftLeft hn 1074

/-- Natural numbers of at most 53 bits are in the format. -/
theorem units_ofNat {n : Nat} (hn : n ≤ 2 ^ 53) : (ofNat n).units = n * unitsInOne := by
  rw [ofNat, units_ofRatio, rounded_one_of_exact (exact_mul_unitsInOne hn)]

theorem units_ofNat_mono {m n : Nat} (h : m ≤ n) : (ofNat m).units ≤ (ofNat n).units := by
  rw [ofNat, ofNat, units_ofRatio, units_ofRatio]
  exact rounded_mono (Nat.mul_le_mul_right _ h) (by decide)

/-- The quotient of natural numbers of at most 53 bits is rounded once. -/
theorem units_div_ofNat {n size : Nat} (hn : n ≤ 2 ^ 53) (hsize : size ≤ 2 ^ 53) :
    ((ofNat n).div (ofNat size)).units = rounded (n * unitsInOne) size := by
  rw [div, units_ofRatio, units_ofNat hn, units_ofNat hsize, rounded_mul_mul_right unitsInOne_pos]

section Operations

variable {a a' b : Magnitude}

theorem units_mul_mono (h : a.units ≤ a'.units) : (a.mul b).units ≤ (a'.mul b).units := by
  rw [mul, mul, units_ofRatio, units_ofRatio]
  exact rounded_mono (Nat.mul_le_mul_right _ (Nat.mul_le_mul_right _ h))
    (Nat.mul_pos unitsInOne_pos unitsInOne_pos)

theorem units_div_mono (h : a.units ≤ a'.units) (hb : 0 < b.units) :
    (a.div b).units ≤ (a'.div b).units := by
  rw [div, div, units_ofRatio, units_ofRatio]
  exact rounded_mono (Nat.mul_le_mul_right _ h) hb

/-- A product with a number of at most 53 bits, before the units of both factors are
accounted for. -/
theorem units_mul_ofNat {n : Nat} (hn : n ≤ 2 ^ 53) :
    (a.mul (ofNat n)).units = rounded (a.units * n) 1 := by
  have hpos : 0 < unitsInOne * unitsInOne := Nat.mul_pos unitsInOne_pos unitsInOne_pos
  calc (a.mul (ofNat n)).units
      = rounded (a.units * (n * unitsInOne) * unitsInOne) (unitsInOne * unitsInOne) := by
        rw [mul, units_ofRatio, units_ofNat hn]
    _ = rounded (a.units * n * (unitsInOne * unitsInOne)) (1 * (unitsInOne * unitsInOne)) := by
        rw [Nat.one_mul, ← Nat.mul_assoc a.units, Nat.mul_assoc (a.units * n)]
    _ = rounded (a.units * n) 1 := rounded_mul_mul_right hpos

theorem ceil_mono (h : a.units ≤ a'.units) : a.ceil ≤ a'.ceil :=
  Nat.div_le_div_right (Nat.add_le_add_right h _)

end Operations

/-- Rounding up finds the first whole number that is not below. -/
theorem ceil_le_iff (m : Magnitude) (n : Nat) : m.ceil ≤ n ↔ m.units ≤ n * unitsInOne := by
  have hone := unitsInOne_pos
  rw [ceil, ← Nat.lt_succ_iff, Nat.div_lt_iff_lt_mul hone, Nat.succ_mul]
  omega

end Magnitude

end OrderStore
