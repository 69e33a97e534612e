import OrderStore.Binary64.Decimal
import OrderStore.Proofs.Binary64.Rounding
import Mathlib.Algebra.Order.Field.Rat

/-!
# Reading decimal text back

A text with a fixed number of decimals stands for an exact number again: its digits,
those before and those behind the point one after the other, count the units of the last
place. Main statement: this is the number of units to which the binary value has been
rounded.
-/

namespace OrderStore

/-- The exact number that decimal text stands for: digits and, possibly, a point with
digits behind it. -/
def decimalValue? (text : List Char) : Option ℚ :=
  let whole := text.takeWhile Char.isDigit
  match text.dropWhile Char.isDigit with
  | [] => if whole = [] then none else some (Nat.ofDigitChars 10 whole 0)
  | point :: places =>
    if whole = [] ∨ point ≠ '.' ∨ places = [] ∨ !places.all Char.isDigit then none
    else some (Nat.ofDigitChars 10 (whole ++ places) 0 / 10 ^ places.length)

section DecimalValue

variable {whole places : List Char} (hwhole : ∀ c ∈ whole, c.isDigit) (hne : whole ≠ [])

include hwhole hne

theorem decimalValue?_whole : decimalValue? whole = some (Nat.ofDigitChars 10 whole 0 : ℚ) := by
  have htake : (whole ++ []).takeWhile Char.isDigit = whole ++ [] :=
    List.takeWhile_append_of_pos hwhole
  have hdrop : (whole ++ []).dropWhile Char.isDigit = [] := List.dropWhile_append_of_pos hwhole
  rw [List.append_nil] at htake hdrop
  rw [decimalValue?, htake, hdrop]
  exact if_neg hne

theorem decimalValue?_point (hplaces : ∀ c ∈ places, c.isDigit) (hne' : places ≠ []) :
    decimalValue? (whole ++ '.' :: places) =
      some (Nat.ofDigitChars 10 (whole ++ places) 0 / 10 ^ places.length : ℚ) := by
  have hpoint : ¬('.' : Char).isDigit := by decide
  have htake : (whole ++ '.' :: places).takeWhile Char.isDigit = whole := by
    rw [List.takeWhile_append_of_pos hwhole, List.takeWhile_cons_of_neg hpoint, List.append_nil]
  have hdrop : (whole ++ '.' :: places).dropWhile Char.isDigit = '.' :: places := by
    rw [List.dropWhile_append_of_pos hwhole, List.dropWhile_cons_of_neg hpoint]
  rw [decimalValue?, htake, hdrop]
  apply if_neg
  rintro (h | h | h | h)
  · exact hne h
  · exact h rfl
  · exact hne' h
  · rw [List.all_eq_true.mpr hplaces] at h
    cases h

end DecimalValue

/-! ## Digits of a number -/

theorem isDigit_of_mem_toDigits {n : Nat} : ∀ c ∈ Nat.toDigits 10 n, c.isDigit := fun _ hc =>
  Nat.isDigit_of_mem_toDigits (by decide) (by decide) hc

section Padded

variable {n width : Nat} (hn : n < 10 ^ width) (hwidth : 0 < width)

theorem isDigit_of_mem_leftpad : ∀ c ∈ (Nat.toDigits 10 n).leftpad width '0', c.isDigit := by
  intro c hc
  rcases List.mem_append.mp hc with hzero | hdigit
  · rw [List.eq_of_mem_replicate hzero]
    decide
  · exact isDigit_of_mem_toDigits c hdigit

theorem ofDigitChars_leftpad : Nat.ofDigitChars 10 ((Nat.toDigits 10 n).leftpad width '0') 0 = n := by
  rw [List.leftpad, Nat.ofDigitChars_append, Nat.ofDigitChars_replicate_zero, Nat.mul_zero,
    Nat.ofDigitChars_ten_toDigits]

include hn hwidth

theorem length_leftpad_toDigits : ((Nat.toDigits 10 n).leftpad width '0').length = width := by
  rw [List.length_leftpad]
  exact Nat.max_eq_left ((Nat.length_toDigits_le_iff (by decide) hwidth).mpr hn)

end Padded

namespace Magnitude

theorem decimalUnits_mono (places : Nat) {m m' : Magnitude} (h : m.units ≤ m'.units) :
    m.decimalUnits places ≤ m'.decimalUnits places := roundDiv_mono (Nat.mul_le_mul_right _ h)

/-- The last place is rounded up by at most half of it. -/
theorem two_mul_decimalUnits_mul_le (places : Nat) (m : Magnitude) :
    2 * (m.decimalUnits places * unitsInOne) ≤ 2 * (m.units * 10 ^ places) + unitsInOne :=
  two_mul_roundDiv_mul_le _ unitsInOne_pos

/-- The last place is rounded down by at most half of it. -/
theorem two_mul_le_decimalUnits_mul (places : Nat) (m : Magnitude) :
    2 * (m.units * 10 ^ places) ≤ 2 * (m.decimalUnits places * unitsInOne) + unitsInOne :=
  two_mul_le_roundDiv_mul _ unitsInOne_pos

/-- A whole number has only zeros as decimals. -/
theorem decimalUnits_of_whole (places : Nat) {m : Magnitude} {n : Nat}
    (h : m.units = n * unitsInOne) : m.decimalUnits places = n * 10 ^ places := by
  have hscaled : m.units * Nat.pow 10 places = n * 10 ^ places * unitsInOne := by
    rw [h, Nat.mul_right_comm]
    rfl
  rw [decimalUnits, hscaled, roundDiv_mul_self _ unitsInOne_pos]

/-- The digits of a number with decimals. -/
theorem toList_toFixed (m : Magnitude) {places : Nat} (hplaces : 0 < places) :
    (m.toFixed places).toList = Nat.toDigits 10 (m.decimalUnits places / 10 ^ places) ++
      '.' :: (Nat.toDigits 10 (m.decimalUnits places % 10 ^ places)).leftpad places '0' := by
  rw [toFixed, if_neg (Nat.ne_of_gt hplaces), zeroPadded, String.toList_append,
    String.toList_append, String.toList_ofList, Nat.toString_eq_repr, Nat.toString_eq_repr,
    Nat.toList_repr, Nat.toList_repr, String.toList_ofList, List.append_assoc]
  rfl

/-- A text with decimals is read back as the rounded number of units of its last place. -/
theorem decimalValue?_toFixed (m : Magnitude) {places : Nat} (hplaces : 0 < places) :
    decimalValue? (m.toFixed places).toList = some (m.decimalUnits places / 10 ^ places : ℚ) := by
  have hrest : m.decimalUnits places % 10 ^ places < 10 ^ places :=
    Nat.mod_lt _ (Nat.pow_pos (by decide))
  have hlength := length_leftpad_toDigits hrest hplaces
  have hne : (Nat.toDigits 10 (m.decimalUnits places % 10 ^ places)).leftpad places '0' ≠ [] :=
    List.ne_nil_of_length_pos (by omega)
  rw [toList_toFixed m hplaces, decimalValue?_point isDigit_of_mem_toDigits Nat.toDigits_ne_nil
    isDigit_of_mem_leftpad hne, Nat.ofDigitChars_append, Nat.ofDigitChars_ten_toDigits,
    Nat.ofDigitChars_eq_ofDigitChars_zero, ofDigitChars_leftpad, hlength, Nat.div_add_mod]

end Magnitude

end OrderStore
