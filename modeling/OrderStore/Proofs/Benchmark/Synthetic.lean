import OrderStore.Benchmark.Synthetic
import OrderStore.Proofs.Record.Faithful
import OrderStore.Proofs.Store.ReadBack
import Mathlib.Data.Nat.Digits.Defs

/-!
# Synthetic orders are read as they were written

Nothing is cut off a synthetic order: its symbol is short and its price is a number.
So in a store into which nothing else was written, whatever can be read is the
synthetic order of its number, whenever a reader looks and whatever was overwritten.
-/

namespace OrderStore

/-! ## The price -/

theorem log2_lt_of_lt_shiftLeft {n k : Nat} (hk : 0 < k) (h : n < 1 <<< k) : Nat.log2 n < k := by
  rw [Nat.one_shiftLeft] at h
  rcases Nat.eq_zero_or_pos n with rfl | hpos
  · rwa [Nat.log2_zero]
  · exact (Nat.log2_lt (by omega)).mpr h

/-- The bits of a magnitude are at most those of an infinite one. -/
theorem Magnitude.toBits_le (m : Magnitude) : m.toBits ≤ 2047 <<< 52 := by
  have hinfinite : 2047 <<< 52 = 2045 * 2 ^ 52 + 2 ^ 53 := by decide
  unfold toBits
  dsimp only
  split
  · next hfinite =>
    have hlog : Nat.log2 m.units < 2098 :=
      log2_lt_of_lt_shiftLeft (by decide) (of_decide_eq_true hfinite)
    generalize hexponent : Nat.log2 m.units - 52 = exponent
    have hsignificand : m.units >>> exponent < 2 ^ 53 := by
      rw [Nat.shiftRight_eq_div_pow, Nat.div_lt_iff_lt_mul (Nat.two_pow_pos exponent),
        ← Nat.pow_add]
      calc m.units < 2 ^ (Nat.log2 m.units + 1) := Nat.lt_log2_self
        _ ≤ 2 ^ (53 + exponent) := Nat.pow_le_pow_right (by decide) (by omega)
    have hscaled : exponent <<< 52 ≤ 2045 * 2 ^ 52 := by
      rw [Nat.shiftLeft_eq]
      exact Nat.mul_le_mul_right _ (by omega)
    omega
  · exact Nat.le_refl _

/-- A magnitude is a number. -/
theorem Binary64.isNaN_ofMagnitude (m : Magnitude) : (ofMagnitude m).isNaN = false := by
  have hbits := m.toBits_le
  have hinfinite : 2047 <<< 52 < 2 ^ 63 := by decide
  have hword : (UInt64.ofNat m.toBits).toNat = m.toBits := by
    rw [UInt64.toNat_ofNat', Nat.mod_eq_of_lt (by omega)]
  rw [isNaN, ofMagnitude, hword, Nat.one_shiftLeft, Nat.mod_eq_of_lt (by omega),
    decide_eq_false_iff_not]
  omega

/-! ## The symbol -/

/-- A text has at most four bytes for each character. -/
theorem utf8ByteSize_ofList_le (text : List Char) :
    (String.ofList text).utf8ByteSize ≤ 4 * text.length := by
  induction text with
  | nil => exact Nat.le_refl 0
  | cons c text ih =>
    have hchar := c.utf8Size_le_four
    rw [String.ofList_cons, String.utf8ByteSize_append, String.utf8ByteSize_singleton,
      List.length_cons]
    omega

/-- The symbol of a synthetic order has six characters. -/
theorem utf8ByteSize_symbol_le (id : UInt32) :
    (syntheticOrder id).symbol.utf8ByteSize ≤ symbolCapacity := by
  let digits := toString (id.toNat % 500)
  have hdigits : digits.toList.length ≤ 3 := by
    have hlt : id.toNat % 500 < 10 ^ 3 := by omega
    exact Nat.repr_length _ 3 (by decide) hlt
  have hpadded : (digits.toList.leftpad 3 '0').length = 3 := by
    rw [List.length_leftpad]
    omega
  have hbytes := utf8ByteSize_ofList_le (digits.toList.leftpad 3 '0')
  have hprefix : "SYM".utf8ByteSize = 3 := by decide
  have hcapacity : symbolCapacity = 31 := rfl
  change ("SYM" ++ String.ofList (digits.toList.leftpad 3 '0')).utf8ByteSize ≤ _
  rw [String.utf8ByteSize_append]
  omega

/-- What is stored of a synthetic order is not corrupt. -/
theorem isCorrupt_stored (id : UInt32) : (syntheticOrder id).stored.isCorrupt = false := by
  have hequal : (syntheticOrder id).stored.equals (syntheticOrder id) = true :=
    (syntheticOrder id).stored_equals_iff.mpr
      ⟨utf8ByteSize_symbol_le id, Binary64.isNaN_ofMagnitude _⟩
  rw [Order.isCorrupt]
  change (!(syntheticOrder id).stored.equals (syntheticOrder id)) = false
  rw [hequal]
  rfl

/-! ## Stores of synthetic orders -/

/-- The call that writes the synthetic order with a number, overwriting or not. -/
def syntheticWrite (ring : Bool) (id : UInt32) : Call :=
  if ring then .appendRing (syntheticOrder id) else .append (syntheticOrder id)

theorem orders_syntheticWrite (ring : Bool) (id : UInt32) :
    (syntheticWrite ring id).orders = [syntheticOrder id] := by
  cases ring <;> rfl

namespace Store

/-- What lands is one of the orders of some call. -/
theorem exists_call_of_mem_landed {s : Store} {calls : List Call} {landing : Nat × Order}
    (h : landing ∈ s.landed calls) : ∃ call ∈ calls, landing.2 ∈ call.orders := by
  induction calls generalizing s with
  | nil => cases h
  | cons call calls ih =>
    rcases List.mem_append.mp h with hfirst | hlater
    · refine ⟨call, List.mem_cons_self, ?_⟩
      rw [landings] at hfirst
      split at hfirst
      · cases hfirst
      · have hmem := List.mem_map_of_mem (f := Prod.snd) hfirst
        rw [Segment.map_snd_landings] at hmem
        exact List.mem_of_mem_take hmem
    · obtain ⟨other, hother, horder⟩ := ih hlater
      exact ⟨other, List.mem_cons_of_mem _ hother, horder⟩

/-- Whatever is read while nothing but synthetic orders was written is not corrupt. -/
theorem not_isCorrupt_of_read {s : Store} (hnew : s.IsNew) {ring : Bool} {ids : List UInt32}
    {offset : Nat} {order : Order}
    (hread : (s.after (ids.map (syntheticWrite ring))).read offset = some order) :
    order.isCorrupt = false := by
  obtain ⟨original, hlatest, rfl⟩ := (hnew.records.after _).latest_of_read hread
  rw [List.nil_append] at hlatest
  obtain ⟨call, hcall, horder⟩ := exists_call_of_mem_landed (mem_of_latest hlatest)
  obtain ⟨id, -, rfl⟩ := List.mem_map.mp hcall
  rw [orders_syntheticWrite, List.mem_singleton] at horder
  obtain rfl : original = syntheticOrder id := horder
  exact isCorrupt_stored id

end Store

end OrderStore
