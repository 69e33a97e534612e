import OrderStore.Latency.Text
import OrderStore.Proofs.Binary64.Decimal
import Mathlib.Algebra.Order.Group.Unbundled.Abs
import Mathlib.Tactic.Linarith
import Mathlib.Tactic.NormNum
import Mathlib.Tactic.Ring

/-!
# Latencies read back from their text

A latency is rounded twice, once as a quotient to the binary64 format and once to two
decimals. Read back as an exact number, it is a whole number of nanoseconds, and so is
half of its last decimal; the quotient is off by less than one nanosecond, so the second
rounding decides alone. Main statements: the text is off by at most half of its last
decimal and keeps the order of latencies, also where the unit changes; but just below the
next unit it shows a thousand of the smaller one.
-/

namespace OrderStore

/-! ## Reading a latency -/

/-- The size of a unit in nanoseconds, by its name. -/
def unitSize? : String → Option Nat
  | "ns" => some 1
  | "μs" => some 1000
  | "ms" => some 1000000
  | "s" => some 1000000000
  | _ => none

/-- A latency as a text states it. -/
structure LatencyReading where
  /-- The number in front of the unit. -/
  number : ℚ
  /-- The size of the unit in nanoseconds. -/
  unit : Nat

/-- The latency in nanoseconds. -/
def LatencyReading.nanos (r : LatencyReading) : ℚ := r.number * r.unit

/-- What a text states: a decimal number and, behind a blank, the name of a unit. -/
def readLatency? (text : String) : Option LatencyReading := do
  let number ← decimalValue? (text.toList.takeWhile (· != ' '))
  let unit ← unitSize? (.ofList (text.toList.dropWhile (· != ' ')).tail)
  some ⟨number, unit⟩

/-- A number without a blank and a known unit are found again. -/
theorem readLatency?_append {number : String} (label name : String) {value : ℚ} {size : Nat}
    (hblank : ∀ c ∈ number.toList, c ≠ ' ') (hvalue : decimalValue? number.toList = some value)
    (hlabel : label = " " ++ name) (hsize : unitSize? name = some size) :
    readLatency? (number ++ label) = some ⟨value, size⟩ := by
  have hbefore : ∀ c ∈ number.toList, (c != ' ') = true := fun c hc =>
    bne_iff_ne.mpr (hblank c hc)
  have hlist : label.toList = ' ' :: name.toList := by
    rw [hlabel, String.toList_append]
    rfl
  have htake : (number ++ label).toList.takeWhile (· != ' ') = number.toList := by
    rw [String.toList_append, hlist, List.takeWhile_append_of_pos hbefore,
      List.takeWhile_cons_of_neg (by decide), List.append_nil]
  have hdrop : (number ++ label).toList.dropWhile (· != ' ') = ' ' :: name.toList := by
    rw [String.toList_append, hlist, List.dropWhile_append_of_pos hbefore,
      List.dropWhile_cons_of_neg (by decide)]
  rw [readLatency?, htake, hdrop, hvalue, List.tail_cons, String.ofList_toList, hsize]
  rfl

/-- The size of the unit that a latency is written in. -/
def latencyUnit (nanos : Nat) : Nat :=
  if nanos < 1000 then 1
  else if nanos < 1000000 then 1000
  else if nanos < 1000000000 then 1000000
  else 1000000000

/-- How many hundredths of a unit of `size` nanoseconds `nanos` are rounded to. -/
def hundredths (nanos size : Nat) : Nat :=
  ((Magnitude.ofNat nanos).div (.ofNat size)).decimalUnits 2

/-- The number in the text of a latency, in hundredths. -/
def printedHundredths (nanos : Nat) : Nat :=
  if nanos < 1000 then 100 * nanos else hundredths nanos (latencyUnit nanos)

theorem ne_blank_of_isDigit {c : Char} (h : c.isDigit) : c ≠ ' ' := by
  rintro rfl
  cases h

theorem readLatency?_inUnit {nanos size : Nat} (label name : String)
    (hlabel : label = " " ++ name) (hsize : unitSize? name = some size) :
    readLatency? (inUnit nanos size ++ label) = some ⟨hundredths nanos size / 100, size⟩ := by
  have hvalue := ((Magnitude.ofNat nanos).div (.ofNat size)).decimalValue?_toFixed
    (by decide : 0 < 2)
  norm_num at hvalue
  refine readLatency?_append label name ?_ hvalue hlabel hsize
  intro c hc
  rw [inUnit, Magnitude.toList_toFixed _ (by decide)] at hc
  rcases List.mem_append.mp hc with hwhole | hrest
  · exact ne_blank_of_isDigit (isDigit_of_mem_toDigits c hwhole)
  · rcases List.mem_cons.mp hrest with rfl | hplace
    · decide
    · exact ne_blank_of_isDigit (isDigit_of_mem_leftpad c hplace)

/-- The text of a latency states a number of hundredths of its unit. -/
theorem readLatency?_formatLatency (nanos : Nat) :
    readLatency? (formatLatency nanos) =
      some ⟨printedHundredths nanos / 100, latencyUnit nanos⟩ := by
  unfold formatLatency printedHundredths latencyUnit
  split_ifs
  · -- nanoseconds are written without decimals
    have hdigits : (toString nanos).toList = Nat.toDigits 10 nanos := Nat.toList_repr
    have hvalue := decimalValue?_whole (isDigit_of_mem_toDigits (n := nanos)) Nat.toDigits_ne_nil
    rw [Nat.ofDigitChars_ten_toDigits, ← hdigits] at hvalue
    have hblank : ∀ c ∈ (toString nanos).toList, c ≠ ' ' := fun c hc =>
      ne_blank_of_isDigit (isDigit_of_mem_toDigits c (hdigits ▸ hc))
    have hread := readLatency?_append " ns" "ns" hblank hvalue rfl rfl
    push_cast
    rw [mul_div_cancel_left₀ _ (by norm_num)]
    exact hread
  · exact readLatency?_inUnit " μs" "μs" rfl rfl
  · exact readLatency?_inUnit " ms" "ms" rfl rfl
  · exact readLatency?_inUnit " s" "s" rfl rfl

/-! ## The number of hundredths -/

section Rounding

open Magnitude

variable {nanos half quotient count one : Nat}

/-- The quotient of a latency and the size of its unit is off by less than one nanosecond. -/
theorem quotient_near {size : Nat} (hsize : 0 < size) (hsmall : size < 2 ^ 30)
    (hnanos : nanos < 2 ^ 24 * size) :
    rounded (nanos * unitsInOne) size * size < nanos * unitsInOne + unitsInOne ∧
      nanos * unitsInOne < rounded (nanos * unitsInOne) size * size + unitsInOne := by
  obtain ⟨scale, hone⟩ : ∃ scale, unitsInOne = 2 ^ 29 * 1 <<< scale := ⟨1045, by decide⟩
  rw [Nat.one_shiftLeft] at hone
  have hspacing : spacing (nanos * unitsInOne / size) ≤ 2 ^ scale := by
    apply spacing_le
    rw [Nat.div_lt_iff_lt_mul hsize]
    calc nanos * unitsInOne < 2 ^ 24 * size * unitsInOne :=
          Nat.mul_lt_mul_of_pos_right hnanos unitsInOne_pos
      _ = 2 ^ (scale + 53) * size := by
        rw [hone, Nat.pow_add]
        ring
  have herror : size * spacing (nanos * unitsInOne / size) < 2 * unitsInOne := by
    calc size * spacing (nanos * unitsInOne / size) ≤ size * 2 ^ scale :=
          Nat.mul_le_mul_left size hspacing
      _ < 2 ^ 30 * 2 ^ scale := Nat.mul_lt_mul_of_pos_right hsmall (Nat.two_pow_pos scale)
      _ = 2 * unitsInOne := by
        rw [hone]
        ring
  have hup := two_mul_rounded_mul_le (nanos * unitsInOne) hsize
  have hdown := two_mul_le_rounded_mul (nanos * unitsInOne) hsize
  omega

-- half a hundredth of the unit is `half` nanoseconds, so that `2 * count * half` is the
-- latency that `count` hundredths stand for

/-- Rounded to hundredths, a quotient that is less than one nanosecond too large is too
large by at most half a hundredth: there is no whole number of nanoseconds in between. -/
theorem hundredths_le_of_quotient (hquotient : quotient * (200 * half) < nanos * one + one)
    (hcount : 2 * (count * one) ≤ 2 * (quotient * 10 ^ 2) + one) :
    2 * count * half ≤ nanos + half := by
  have hlt : 2 * count * half * one < (nanos + half + 1) * one := by
    calc 2 * count * half * one = 2 * (count * one) * half := by ring
      _ ≤ (2 * (quotient * 10 ^ 2) + one) * half := Nat.mul_le_mul_right half hcount
      _ = quotient * (200 * half) + half * one := by ring
      _ < nanos * one + one + half * one := Nat.add_lt_add_right hquotient _
      _ = (nanos + half + 1) * one := by ring
  have := Nat.lt_of_mul_lt_mul_right hlt
  omega

/-- And one that is too small likewise. -/
theorem le_hundredths_of_quotient (hquotient : nanos * one < quotient * (200 * half) + one)
    (hcount : 2 * (quotient * 10 ^ 2) ≤ 2 * (count * one) + one) :
    nanos ≤ 2 * count * half + half := by
  have hlt : nanos * one < (2 * count * half + half + 1) * one := by
    calc nanos * one < quotient * (200 * half) + one := hquotient
      _ = 2 * (quotient * 10 ^ 2) * half + one := by ring
      _ ≤ (2 * (count * one) + one) * half + one :=
          Nat.add_le_add_right (Nat.mul_le_mul_right half hcount) _
      _ = (2 * count * half + half + 1) * one := by ring
  have := Nat.lt_of_mul_lt_mul_right hlt
  omega

end Rounding

section Hundredths

variable {nanos nanos' half : Nat} (hhalf : 0 < half) (hsmall : half ≤ 5000000)

include hhalf hsmall

theorem hundredths_mono (h : nanos ≤ nanos') :
    hundredths nanos (200 * half) ≤ hundredths nanos' (200 * half) := by
  have hpos : 0 < (Magnitude.ofNat (200 * half)).units := by
    rw [Magnitude.units_ofNat (by omega)]
    exact Nat.mul_pos (by omega) Magnitude.unitsInOne_pos
  exact Magnitude.decimalUnits_mono 2
    (Magnitude.units_div_mono (Magnitude.units_ofNat_mono h) hpos)

/-- A whole number of units is written as it is. -/
theorem hundredths_multiple {count : Nat} (hcount : count ≤ 1000) :
    hundredths (count * (200 * half)) (200 * half) = count * 100 := by
  have hle : count * (200 * half) ≤ 1000 * (200 * half) := Nat.mul_le_mul_right _ hcount
  apply Magnitude.decimalUnits_of_whole
  rw [Magnitude.units_div_ofNat (by omega) (by omega), Nat.mul_right_comm]
  exact Magnitude.rounded_of_exact (Magnitude.exact_mul_unitsInOne (by omega)) (by omega)

/-- The hundredths are off by at most half of one. -/
theorem hundredths_near (hnanos : nanos ≤ 2 ^ 53) (hlt : nanos < 2 ^ 24 * (200 * half)) :
    2 * hundredths nanos (200 * half) * half ≤ nanos + half ∧
      nanos ≤ 2 * hundredths nanos (200 * half) * half + half := by
  obtain ⟨hbelow, habove⟩ := quotient_near (by omega) (by omega) hlt
  rw [← Magnitude.units_div_ofNat hnanos (by omega)] at hbelow habove
  exact ⟨hundredths_le_of_quotient hbelow (Magnitude.two_mul_decimalUnits_mul_le 2 _),
    le_hundredths_of_quotient habove (Magnitude.two_mul_le_decimalUnits_mul 2 _)⟩

end Hundredths

/-! ## The number printed -/

section Printed

variable {nanos nanos' : Nat}

theorem printedHundredths_of_lt (h : nanos < 1000) : printedHundredths nanos = 100 * nanos :=
  if_pos h

theorem printedHundredths_of_le (h : 1000 ≤ nanos) :
    printedHundredths nanos = hundredths nanos (latencyUnit nanos) := if_neg (Nat.not_lt.mpr h)

theorem latencyUnit_of_lt (h : nanos < 1000) : latencyUnit nanos = 1 := if_pos h

theorem latencyUnit_le (hne : nanos ≠ 0) : latencyUnit nanos ≤ nanos := by
  unfold latencyUnit
  split_ifs <;> omega

theorem lt_mul_latencyUnit (h : nanos < 1000000000) : nanos < 1000 * latencyUnit nanos := by
  unfold latencyUnit
  split_ifs <;> omega

/-- From a microsecond on half a hundredth of the unit is a whole number of nanoseconds. -/
theorem exists_latencyUnit_eq (h : 1000 ≤ nanos) :
    ∃ half, 0 < half ∧ half ≤ 5000000 ∧ latencyUnit nanos = 200 * half ∧
      (nanos ≤ 2 ^ 53 → nanos < 2 ^ 24 * (200 * half)) := by
  unfold latencyUnit
  rw [if_neg (Nat.not_lt.mpr h)]
  split_ifs with hmicros hmillis
  · exact ⟨5, by omega⟩
  · exact ⟨5000, by omega⟩
  · exact ⟨5000000, by omega⟩

/-- A latency has at least one of its unit. -/
theorem le_printedHundredths (hne : nanos ≠ 0) : 100 ≤ printedHundredths nanos := by
  rcases Nat.lt_or_ge nanos 1000 with hsmall | hlarge
  · rw [printedHundredths_of_lt hsmall]
    omega
  · obtain ⟨half, hhalf, hmax, hunit, -⟩ := exists_latencyUnit_eq hlarge
    have hle := latencyUnit_le hne
    rw [hunit] at hle
    rw [printedHundredths_of_le hlarge, hunit]
    calc 100 = hundredths (1 * (200 * half)) (200 * half) :=
          (hundredths_multiple hhalf hmax (by decide : 1 ≤ 1000)).symm
      _ ≤ hundredths nanos (200 * half) := hundredths_mono hhalf hmax (by omega)

/-- Below a second it is rounded to no more than a thousand. -/
theorem printedHundredths_le (h : nanos < 1000000000) : printedHundredths nanos ≤ 100000 := by
  rcases Nat.lt_or_ge nanos 1000 with hsmall | hlarge
  · rw [printedHundredths_of_lt hsmall]
    omega
  · obtain ⟨half, hhalf, hmax, hunit, -⟩ := exists_latencyUnit_eq hlarge
    have hlt := lt_mul_latencyUnit h
    rw [hunit] at hlt
    rw [printedHundredths_of_le hlarge, hunit]
    calc hundredths nanos (200 * half) ≤ hundredths (1000 * (200 * half)) (200 * half) :=
          hundredths_mono hhalf hmax (Nat.le_of_lt hlt)
      _ = 100000 := hundredths_multiple hhalf hmax (Nat.le_refl _)

/-- What is printed is off by at most half a hundredth of the unit. -/
theorem printedHundredths_near (h : nanos ≤ 2 ^ 53) :
    2 * (printedHundredths nanos * latencyUnit nanos) ≤ 200 * nanos + latencyUnit nanos ∧
      200 * nanos ≤ 2 * (printedHundredths nanos * latencyUnit nanos) + latencyUnit nanos := by
  rcases Nat.lt_or_ge nanos 1000 with hsmall | hlarge
  · rw [printedHundredths_of_lt hsmall, latencyUnit_of_lt hsmall]
    omega
  · obtain ⟨half, hhalf, hmax, hunit, hquotient⟩ := exists_latencyUnit_eq hlarge
    obtain ⟨hup, hdown⟩ := hundredths_near hhalf hmax h (hquotient h)
    rw [printedHundredths_of_le hlarge, hunit]
    have hnanos : 2 * (hundredths nanos (200 * half) * (200 * half)) =
        200 * (2 * hundredths nanos (200 * half) * half) := by ring
    omega

/-- Of two latencies the greater one has the same unit or a larger one. -/
theorem latencyUnit_cases (h : nanos ≤ nanos') :
    latencyUnit nanos = latencyUnit nanos' ∨
      nanos < 1000000000 ∧ 1000 * latencyUnit nanos ≤ latencyUnit nanos' := by
  unfold latencyUnit
  split_ifs <;> omega

theorem printedHundredths_mono_of_unit (h : nanos ≤ nanos')
    (hunit : latencyUnit nanos = latencyUnit nanos') :
    printedHundredths nanos ≤ printedHundredths nanos' := by
  rcases Nat.lt_or_ge nanos' 1000 with hsmall | hlarge
  · rw [printedHundredths_of_lt hsmall, printedHundredths_of_lt (by omega)]
    omega
  · obtain ⟨half, hhalf, hmax, hunit', -⟩ := exists_latencyUnit_eq hlarge
    have hlarge' : 1000 ≤ nanos := by
      refine Nat.le_of_not_lt fun hsmall => ?_
      rw [latencyUnit_of_lt hsmall] at hunit
      omega
    rw [printedHundredths_of_le hlarge, printedHundredths_of_le hlarge', hunit, hunit']
    exact hundredths_mono hhalf hmax h

/-- The order is kept within a unit, and from one unit to the next by a thousand of the
smaller one. -/
theorem printedHundredths_mul_mono (h : nanos ≤ nanos') :
    printedHundredths nanos * latencyUnit nanos ≤
      printedHundredths nanos' * latencyUnit nanos' := by
  rcases latencyUnit_cases h with hunit | ⟨hbelow, hunits⟩
  · rw [← hunit]
    exact Nat.mul_le_mul_right _ (printedHundredths_mono_of_unit h hunit)
  · have hne : nanos' ≠ 0 := by
      rintro rfl
      rw [Nat.le_zero.mp h] at hunits
      exact absurd hunits (by decide)
    calc printedHundredths nanos * latencyUnit nanos ≤ 100000 * latencyUnit nanos :=
          Nat.mul_le_mul_right _ (printedHundredths_le hbelow)
      _ = 100 * (1000 * latencyUnit nanos) := by ring
      _ ≤ printedHundredths nanos' * latencyUnit nanos' :=
          Nat.mul_le_mul (le_printedHundredths hne) hunits

end Printed

/-! ## The text -/

theorem nanos_printed (nanos : Nat) :
    LatencyReading.nanos ⟨printedHundredths nanos / 100, latencyUnit nanos⟩ =
      (printedHundredths nanos * latencyUnit nanos : ℕ) / 100 := by
  rw [LatencyReading.nanos, Nat.cast_mul]
  ring

/-- The text of a latency keeps the order of all latencies and is, up to `2 ^ 53`
nanoseconds, off by at most half a hundredth of the unit that it names. -/
theorem formatLatency_accurate :
    (∀ nanos nanos' : Nat, nanos ≤ nanos' →
      ∃ r r', readLatency? (formatLatency nanos) = some r ∧
        readLatency? (formatLatency nanos') = some r' ∧ r.nanos ≤ r'.nanos) ∧
      ∀ nanos : Nat, nanos ≤ 2 ^ 53 →
        ∃ r, readLatency? (formatLatency nanos) = some r ∧ |r.nanos - nanos| ≤ r.unit / 200 := by
  constructor
  · intro nanos nanos' h
    refine ⟨_, _, readLatency?_formatLatency nanos, readLatency?_formatLatency nanos', ?_⟩
    rw [nanos_printed, nanos_printed]
    have hmono : ((printedHundredths nanos * latencyUnit nanos : ℕ) : ℚ) ≤
        (printedHundredths nanos' * latencyUnit nanos' : ℕ) :=
      Nat.cast_le.mpr (printedHundredths_mul_mono h)
    linarith
  · intro nanos h
    refine ⟨_, readLatency?_formatLatency nanos, ?_⟩
    obtain ⟨hup, hdown⟩ := printedHundredths_near h
    have hup' : (2 * (printedHundredths nanos * latencyUnit nanos : ℕ) : ℚ) ≤
        200 * nanos + latencyUnit nanos := by exact_mod_cast hup
    have hdown' : (200 * nanos : ℚ) ≤
        2 * (printedHundredths nanos * latencyUnit nanos : ℕ) + latencyUnit nanos := by
      exact_mod_cast hdown
    rw [nanos_printed, abs_le]
    dsimp only
    constructor <;> linarith

/-- Where the unit changes two texts state the same latency, and the last latency to be
accurate is still written in seconds. -/
theorem formatLatency_accurate_units :
    (999999 ≤ 1000000 ∧ formatLatency 999999 = "1000.00 μs" ∧
      formatLatency 1000000 = "1.00 ms" ∧ ∃ r r', readLatency? "1000.00 μs" = some r ∧
        readLatency? "1.00 ms" = some r' ∧ r.nanos ≤ r'.nanos) ∧
      9007199254740992 ≤ 2 ^ 53 ∧ formatLatency 9007199254740992 = "9007199.25 s" ∧
        ∃ r, readLatency? "9007199.25 s" = some r ∧
          |r.nanos - (9007199254740992 : ℕ)| ≤ r.unit / 200 := by
  have hmicros : formatLatency 999999 = "1000.00 μs" := by decide +kernel
  have hmillis : formatLatency 1000000 = "1.00 ms" := by decide +kernel
  have hseconds : formatLatency 9007199254740992 = "9007199.25 s" := by decide +kernel
  have hmono := formatLatency_accurate.1 999999 1000000 (by decide)
  have hnear := formatLatency_accurate.2 9007199254740992 (by decide)
  rw [hmicros, hmillis] at hmono
  rw [hseconds] at hnear
  exact ⟨⟨by decide, hmicros, hmillis, hmono⟩, by decide, hseconds, hnear⟩

/-- The latencies that are written as a thousand of their unit. -/
def RoundsToThousand (nanos : Nat) : Prop :=
  999995 ≤ nanos ∧ nanos < 1000000 ∨ 999995000 ≤ nanos ∧ nanos < 1000000000

instance (nanos : Nat) : Decidable (RoundsToThousand nanos) :=
  inferInstanceAs (Decidable (_ ∨ _))

theorem printedHundredths_eq_thousand_iff {nanos : Nat} (h : nanos < 1000000000) :
    printedHundredths nanos = 100000 ↔ RoundsToThousand nanos := by
  constructor
  · intro hthousand
    have hbound : nanos ≤ 2 ^ 53 := by omega
    obtain ⟨hup, -⟩ := printedHundredths_near hbound
    rw [hthousand] at hup
    unfold RoundsToThousand
    rcases Nat.lt_or_ge nanos 1000 with hsmall | hlarge
    · rw [printedHundredths_of_lt hsmall] at hthousand
      omega
    · unfold latencyUnit at hup
      split_ifs at hup <;> omega
  · intro hrounds
    -- halfway between two decimals the quotient is held as a number slightly above it
    refine Nat.le_antisymm (printedHundredths_le h) ?_
    rcases hrounds with ⟨hlow, hhigh⟩ | ⟨hlow, hhigh⟩
    · have hunit : latencyUnit 999995 = latencyUnit nanos := by
        unfold latencyUnit
        split_ifs <;> omega
      calc 100000 = printedHundredths 999995 := by decide +kernel
        _ ≤ printedHundredths nanos := printedHundredths_mono_of_unit hlow hunit
    · have hunit : latencyUnit 999995000 = latencyUnit nanos := by
        unfold latencyUnit
        split_ifs <;> omega
      calc 100000 = printedHundredths 999995000 := by decide +kernel
        _ ≤ printedHundredths nanos := printedHundredths_mono_of_unit hlow hunit

/-- Below a second a latency is at least one of the unit that its text names and less than
a thousand; but as the unit is chosen before the number is rounded, the text shows a
thousand of the unit for the last few latencies before the next one. -/
theorem formatLatency_number {nanos : Nat} (h : nanos < 1000000000) :
    ∃ r, readLatency? (formatLatency nanos) = some r ∧ nanos < 1000 * r.unit ∧
      (nanos ≠ 0 → r.unit ≤ nanos ∧ 1 ≤ r.number) ∧
      (r.number < 1000 ↔ ¬RoundsToThousand nanos) ∧
      (RoundsToThousand nanos → r.number = 1000) := by
  have hle := printedHundredths_le h
  have hthousand := printedHundredths_eq_thousand_iff h
  refine ⟨_, readLatency?_formatLatency nanos, lt_mul_latencyUnit h,
    fun hne => ⟨latencyUnit_le hne, ?_⟩, ?_, fun hrounds => ?_⟩
  · rw [le_div_iff₀ (by norm_num), one_mul]
    exact_mod_cast le_printedHundredths hne
  · have hless : (printedHundredths nanos / 100 : ℚ) < 1000 ↔ printedHundredths nanos < 100000 := by
      rw [div_lt_iff₀ (by norm_num)]
      norm_num
    rw [hless, ← hthousand]
    omega
  · dsimp only
    rw [hthousand.mpr hrounds]
    norm_num

/-- One nanosecond before a millisecond the number is a thousand. -/
theorem formatLatency_number_last :
    999999 < 1000000000 ∧ RoundsToThousand 999999 ∧
      ∃ r, readLatency? (formatLatency 999999) = some r ∧ 1 ≤ r.number ∧ r.number = 1000 := by
  have hrounds : RoundsToThousand 999999 := by decide
  obtain ⟨r, hread, -, hone, -, hthousand⟩ := formatLatency_number (by decide : 999999 < 1000000000)
  exact ⟨by decide, hrounds, r, hread, (hone (by decide)).2, hthousand hrounds⟩

/-- So not every latency below a second is written as less than a thousand of its unit. -/
theorem formatLatency_number_ne :
    ¬∀ nanos : Nat, nanos < 1000000000 →
      ∃ r, readLatency? (formatLatency nanos) = some r ∧ r.number < 1000 := by
  intro h
  obtain ⟨r, hread, hless⟩ := h 999999 (by decide)
  have hprinted : printedHundredths 999999 = 100000 := by decide +kernel
  rw [readLatency?_formatLatency, hprinted, Option.some.injEq] at hread
  rw [← hread] at hless
  norm_num at hless

end OrderStore
