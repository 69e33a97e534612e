import OrderStore.Proofs.Benchmark.Workload
import Mathlib.Algebra.GroupWithZero.Nat
import Mathlib.Data.Set.Function

/-!
# Every order has a number of its own

Writers number their orders with words of 32 bits and never look whether a product or a
sum fits. It does, because the number of writers was converted and multiplied with
checks before they start. So the numbers of all writers, one writer after the other, are
simply zero, one, two and so on, and no two orders have the same one.
-/

namespace OrderStore

/-- The sum of two words, if it fits into a word. -/
def sum? (a b : UInt32) : Option UInt32 :=
  if a.toNat + b.toNat < UInt32.size then some (a + b) else none

/-- Both checks together are one on unbounded numbers. -/
theorem fitsIdSpace_iff (writers : UInt64) (records : UInt32) :
    fitsIdSpace writers records = true ↔
      writers.toNat < UInt32.size ∧ writers.toNat * records.toNat < UInt32.size := by
  unfold fitsIdSpace narrow?
  split
  · next hwriters =>
    have hnarrow : writers.toUInt32.toNat = writers.toNat := by
      rw [UInt64.toNat_toUInt32]
      exact Nat.mod_eq_of_lt hwriters
    rw [Option.bind_some, product?, hnarrow]
    split
    · next hproduct => exact iff_of_true rfl ⟨hwriters, hproduct⟩
    · next hproduct => exact iff_of_false Bool.false_ne_true fun h => hproduct h.2
  · next hwriters => exact iff_of_false Bool.false_ne_true fun h => hwriters h.1

/-- What lies in one of several spans of the same length lies below their total. -/
theorem mul_add_lt {count length w i : ℕ} (hw : w < count) (hi : i < length) :
    w * length + i < count * length := by
  calc w * length + i < w * length + length := Nat.add_lt_add_left hi _
    _ = (w + 1) * length := (Nat.succ_mul ..).symm
    _ ≤ count * length := Nat.mul_le_mul_right _ hw

/-! ## The numbers of one writer -/

section

variable {writers : UInt64} {records : UInt32} (hfits : fitsIdSpace writers records = true)
  {w i : ℕ} (hw : w < writers.toNat)

include hfits hw

/-- The place of a writer is still the same as a word. -/
theorem toNat_writer : (UInt32.ofNat w).toNat = w := by
  obtain ⟨hwriters, -⟩ := (fitsIdSpace_iff writers records).mp hfits
  rw [UInt32.toNat_ofNat']
  exact Nat.mod_eq_of_lt (hw.trans hwriters)

/-- The first number of a writer fits into a word. -/
theorem product?_writer :
    product? (UInt32.ofNat w) records = some (UInt32.ofNat w * records) ∧
      (UInt32.ofNat w * records).toNat = w * records.toNat := by
  obtain ⟨-, hproduct⟩ := (fitsIdSpace_iff writers records).mp hfits
  have hfirst : w * records.toNat < UInt32.size :=
    (Nat.mul_le_mul_right _ hw.le).trans_lt hproduct
  rw [product?, UInt32.toNat_mul, toNat_writer hfits hw]
  exact ⟨if_pos hfirst, Nat.mod_eq_of_lt hfirst⟩

/-- So does every other one. -/
theorem sum?_writer (hi : i < records.toNat) :
    sum? (UInt32.ofNat w * records) (UInt32.ofNat i) = some (orderId records w i) ∧
      (orderId records w i).toNat = w * records.toNat + i := by
  obtain ⟨-, hproduct⟩ := (fitsIdSpace_iff writers records).mp hfits
  obtain ⟨-, hfirst⟩ := product?_writer hfits hw
  have hplace : (UInt32.ofNat i).toNat = i := by
    rw [UInt32.toNat_ofNat']
    exact Nat.mod_eq_of_lt (hi.trans records.toNat_lt)
  have hsum : w * records.toNat + i < UInt32.size := (mul_add_lt hw hi).trans hproduct
  rw [sum?, orderId, UInt32.toNat_add, hfirst, hplace]
  exact ⟨if_pos hsum, Nat.mod_eq_of_lt hsum⟩

end

/-! ## The numbers of all writers -/

/-- Spans of the same length, one behind the other, make one span. -/
theorem flatten_spans (count length : ℕ) :
    ((List.range count).map fun w => (List.range length).map (w * length + ·)).flatten =
      List.range (count * length) := by
  induction count with
  | zero => rw [Nat.zero_mul, List.range_zero, List.map_nil, List.flatten_nil]
  | succ count ih =>
    rw [List.range_succ, List.map_append, List.flatten_append, ih, List.map_singleton,
      List.flatten_singleton, Nat.succ_mul, List.range_add]

/-- The numbers of all orders are those below the number of orders. -/
theorem map_toNat_orderIds {o : Options} (hfits : fitsIdSpace o.writers o.records = true) :
    o.orderIds.map UInt32.toNat = List.range (o.writers.toNat * o.records.toNat) := by
  rw [Options.orderIds, List.map_flatten, List.map_map, ← flatten_spans]
  congr 1
  refine List.map_congr_left fun w hw => ?_
  rw [Function.comp_apply, writerIds, List.map_map]
  exact List.map_congr_left fun i hi =>
    (sum?_writer hfits (List.mem_range.mp hw) (List.mem_range.mp hi)).2

/-- Which writer writes an order, and after how many others, can be told by its
number. -/
theorem bijOn_orderId {writers : UInt64} {records : UInt32}
    (hfits : fitsIdSpace writers records = true) :
    Set.BijOn (fun place : ℕ × ℕ => (orderId records place.1 place.2).toNat)
      {place | place.1 < writers.toNat ∧ place.2 < records.toNat}
      (Set.Iio (writers.toNat * records.toNat)) := by
  have hnumber : Set.EqOn (fun place : ℕ × ℕ => (orderId records place.1 place.2).toNat)
      (fun place => place.1 * records.toNat + place.2)
      {place | place.1 < writers.toNat ∧ place.2 < records.toNat} :=
    fun place hplace => (sum?_writer hfits hplace.1 hplace.2).2
  refine Set.BijOn.congr ⟨?_, ?_, ?_⟩ hnumber.symm
  · rintro ⟨w, i⟩ ⟨hw, hi⟩
    exact mul_add_lt hw hi
  · rintro ⟨w, i⟩ ⟨-, hi⟩ ⟨w', i'⟩ ⟨-, hi'⟩ hsame
    dsimp only at hi hi' hsame
    have hplace {w i : ℕ} (hi : i < records.toNat) :
        (w * records.toNat + i) / records.toNat = w ∧ (w * records.toNat + i) % records.toNat = i :=
      (Nat.div_mod_unique (Nat.zero_lt_of_lt hi)).mpr ⟨by rw [Nat.mul_comm, Nat.add_comm], hi⟩
    obtain ⟨hw, hrest⟩ := hplace (w := w) hi
    obtain ⟨hw', hrest'⟩ := hplace (w := w') hi'
    rw [hsame] at hw hrest
    rw [← hw, ← hrest, hw', hrest']
  · intro n hn
    have hrecords : 0 < records.toNat := Nat.pos_of_mul_pos_left (Nat.zero_lt_of_lt hn)
    exact ⟨(n / records.toNat, n % records.toNat),
      ⟨Nat.div_lt_of_lt_mul (Nat.mul_comm .. ▸ hn), Nat.mod_lt _ hrecords⟩,
      Nat.div_add_mod' n records.toNat⟩

/-- The check before a run succeeds just if there are at most `2 ^ 32 - 1` writers and at
most as many orders, however large these numbers are. If it does, nothing that a writer
computes with words overflows: its place fits into a word, and so do the first of its
numbers and every other one. The numbers of all writers and all places are in one-to-one
correspondence with those below the number of orders; as they are written, writer by
writer, they are just these in order, and all of them are distinct. -/
theorem checkIdSpace_numbers (o : Options) :
    (o.checkIdSpace = .ok () ↔
      o.writers.toNat ≤ 2 ^ 32 - 1 ∧ o.writers.toNat * o.records.toNat ≤ 2 ^ 32 - 1) ∧
    (o.checkIdSpace = .ok () →
      (∀ w < o.writers.toNat, (UInt32.ofNat w).toNat = w ∧
        ∃ first, product? (UInt32.ofNat w) o.records = some first ∧
          ∀ i < o.records.toNat, ∃ id, sum? first (UInt32.ofNat i) = some id ∧
            (writerIds o.records w)[i]? = some id ∧ id.toNat = w * o.records.toNat + i) ∧
      Set.BijOn (fun place : ℕ × ℕ => (orderId o.records place.1 place.2).toNat)
        {place | place.1 < o.writers.toNat ∧ place.2 < o.records.toNat}
        (Set.Iio (o.writers.toNat * o.records.toNat)) ∧
      o.orderIds.map UInt32.toNat = List.range (o.writers.toNat * o.records.toNat) ∧
      o.orderIds.Nodup) := by
  have hcheck : o.checkIdSpace = .ok () ↔ fitsIdSpace o.writers o.records = true := by
    unfold Options.checkIdSpace
    split
    · next h => exact iff_of_true rfl h
    · next h => exact iff_of_false nofun h
  have hsize : UInt32.size = 2 ^ 32 := rfl
  rw [hcheck]
  refine ⟨by rw [fitsIdSpace_iff, hsize]; omega, fun hfits => ?_⟩
  have hall := map_toNat_orderIds hfits
  refine ⟨fun w hw => ⟨toNat_writer hfits hw, _, (product?_writer hfits hw).1, fun i hi => ?_⟩,
    bijOn_orderId hfits, hall, ?_⟩
  · obtain ⟨hsum, hnumber⟩ := sum?_writer hfits hw hi
    refine ⟨_, hsum, ?_, hnumber⟩
    rw [writerIds, List.getElem?_map, List.getElem?_range hi, Option.map_some]
  · refine List.Nodup.of_map UInt32.toNat ?_
    rw [hall]
    exact List.nodup_range

/-- As many orders as there can be: the last one has the largest number but one. -/
theorem checkIdSpace_numbers_largest :
    let o : Options := { writers := 65537, records := 65535 }
    o.checkIdSpace = .ok () ∧ (writerIds o.records 65536)[65534]? = some 4294967294 := by
  intro o
  have hcheck : o.checkIdSpace = .ok () := by decide +kernel
  obtain ⟨hwriters, -⟩ := (checkIdSpace_numbers o).2 hcheck
  obtain ⟨-, first, -, hnumbers⟩ := hwriters 65536 (by decide)
  obtain ⟨id, -, hid, hnumber⟩ := hnumbers 65534 (by decide)
  have hlast : id = 4294967294 := UInt32.toNat_inj.mp (hnumber.trans (by decide))
  exact ⟨hcheck, hlast ▸ hid⟩

end OrderStore
