import OrderStore.Buffer.Arena

/-!
# What an arena holds after a write

A write changes the bytes it covers and no others. So a record reads back where
it was written, and a record that does not overlap it is as before.
-/

namespace OrderStore

theorem size_overwrite (values : List UInt8) (offset : Nat) (bytes : Array UInt8) :
    (overwrite values offset bytes).size = bytes.size := by
  induction values generalizing offset bytes with
  | nil => rfl
  | cons value values ih => rw [overwrite, ih, Array.size_setIfInBounds]

/-- Overwriting leaves the bytes before its first and behind its last one. -/
theorem getElem?_overwrite_of_outside {values : List UInt8} {offset i : Nat}
    (bytes : Array UInt8) (houtside : i < offset ∨ offset + values.length ≤ i) :
    (overwrite values offset bytes)[i]? = bytes[i]? := by
  induction values generalizing offset bytes with
  | nil => rfl
  | cons value values ih =>
    rw [List.length_cons] at houtside
    rw [overwrite, ih _ (by omega), Array.getElem?_setIfInBounds_ne (by omega)]

/-- Overwriting puts the values where they belong, as far as there are bytes. -/
theorem getElem?_overwrite_of_inside {values : List UInt8} {offset i : Nat}
    (bytes : Array UInt8) (hi : i < values.length) (hsize : offset + i < bytes.size) :
    (overwrite values offset bytes)[offset + i]? = values[i]? := by
  induction values generalizing offset i bytes with
  | nil => simp at hi
  | cons value values ih =>
    cases i with
    | zero =>
      rw [overwrite, getElem?_overwrite_of_outside _ (by omega), Nat.add_zero,
        Array.getElem?_setIfInBounds_self_of_lt (by omega), List.getElem?_cons_zero]
    | succ i =>
      rw [List.length_cons] at hi
      have hsize' : offset + 1 + i < (bytes.setIfInBounds offset value).size := by
        rw [Array.size_setIfInBounds]
        omega
      have hindex : offset + (i + 1) = offset + 1 + i := by omega
      rw [overwrite, List.getElem?_cons_succ, hindex]
      exact ih _ (by omega) hsize'

namespace Arena

theorem capacity_new (capacity : Nat) : (new capacity).capacity = capacity := by
  simp [Arena.capacity, new]

theorem capacity_clear (a : Arena) : a.clear.capacity = a.capacity := capacity_new _

@[simp] theorem capacity_write (a : Arena) (offset : Nat) (block : Block) :
    (a.write offset block).capacity = a.capacity := by
  unfold write
  split
  · exact size_overwrite block.toList offset a.bytes
  · rfl

section Write

variable {a : Arena} {offset : Nat} {block : Block}

theorem fits_iff : a.fits offset = true ↔ offset + recordSize ≤ a.capacity := decide_eq_true_iff

theorem write_of_fits (hfits : offset + recordSize ≤ a.capacity) :
    a.write offset block = ⟨overwrite block.toList offset a.bytes⟩ := by
  rw [write, if_pos (fits_iff.mpr hfits)]

/-- A refused record changes nothing. -/
theorem write_of_refused (hrefused : a.capacity < offset + recordSize) :
    a.write offset block = a := by
  rw [write, if_neg (mt fits_iff.mp (Nat.not_le.mpr hrefused))]

theorem getElem?_write_of_inside {i : Nat} (hfits : offset + recordSize ≤ a.capacity)
    (hlow : offset ≤ i) (hhigh : i < offset + recordSize) :
    (a.write offset block).bytes[i]? = block.toList[i - offset]? := by
  obtain ⟨j, rfl⟩ := Nat.exists_eq_add_of_le hlow
  rw [write_of_fits hfits, Nat.add_sub_cancel_left]
  apply getElem?_overwrite_of_inside
  · rw [Vector.length_toList]
    omega
  · unfold capacity at hfits
    omega

theorem getElem?_write_of_outside {i : Nat} (houtside : i < offset ∨ offset + recordSize ≤ i) :
    (a.write offset block).bytes[i]? = a.bytes[i]? := by
  rcases Nat.lt_or_ge a.capacity (offset + recordSize) with hrefused | hfits
  · rw [write_of_refused hrefused]
  · rw [write_of_fits hfits]
    apply getElem?_overwrite_of_outside
    rwa [Vector.length_toList]

end Write

/-- A record can be read exactly where one fits. -/
theorem read_eq_none_iff {a : Arena} {offset : Nat} :
    a.read offset = none ↔ a.capacity < offset + recordSize := by
  unfold read capacity
  split
  · simp only [reduceCtorEq, false_iff]
    omega
  · simp only [true_iff]
    omega

/-- The bytes of an arena determine each of its records. -/
theorem read_eq_some_iff {a : Arena} {offset : Nat} {block : Block} :
    a.read offset = some block ↔
      ∀ i, i < recordSize → a.bytes[offset + i]? = block.toList[i]? := by
  unfold read
  constructor
  · intro h i hi
    split at h
    · have hblock := Option.some.inj h
      subst hblock
      rw [Array.getElem?_eq_getElem (by omega), List.getElem?_eq_getElem (by simpa using hi)]
      simp
    · cases h
  · intro h
    have hpos : 0 < recordSize := by decide
    have hlast := h (recordSize - 1) (by omega)
    rw [List.getElem?_eq_getElem (by rw [Vector.length_toList]; omega)] at hlast
    obtain ⟨hsize, _⟩ := Array.getElem?_eq_some_iff.mp hlast
    rw [dif_pos (show offset + recordSize ≤ a.bytes.size by omega), Option.some.injEq]
    apply Vector.ext
    intro i hi
    have hbyte := h i hi
    rw [Array.getElem?_eq_getElem (by omega),
      List.getElem?_eq_getElem (by rwa [Vector.length_toList]), Option.some.injEq,
      Vector.getElem_toList] at hbyte
    rw [Vector.getElem_ofFn]
    exact hbyte

/-- A record depends only on its own bytes. -/
theorem read_congr {a a' : Arena} {offset : Nat} (hcapacity : a.capacity = a'.capacity)
    (hbytes : ∀ i < recordSize, a.bytes[offset + i]? = a'.bytes[offset + i]?) :
    a.read offset = a'.read offset := by
  cases hread : a'.read offset with
  | none =>
    rw [read_eq_none_iff] at hread ⊢
    rwa [hcapacity]
  | some block =>
    rw [read_eq_some_iff] at hread ⊢
    intro i hi
    rw [hbytes i hi, hread i hi]

/-- A record reads back where it was written. -/
theorem read_write_self {a : Arena} {offset : Nat} (block : Block)
    (hfits : offset + recordSize ≤ a.capacity) :
    (a.write offset block).read offset = some block := by
  rw [read_eq_some_iff]
  intro i hi
  rw [getElem?_write_of_inside hfits (by omega) (by omega), Nat.add_sub_cancel_left]

/-- A write leaves the records that do not overlap it. -/
theorem read_write_of_disjoint {a : Arena} {offset other : Nat} (block : Block)
    (hdisjoint : other + recordSize ≤ offset ∨ offset + recordSize ≤ other) :
    (a.write offset block).read other = a.read other :=
  read_congr (capacity_write ..) fun _ _ => getElem?_write_of_outside (by omega)

end Arena

end OrderStore
