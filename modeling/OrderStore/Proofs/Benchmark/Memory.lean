import OrderStore.Benchmark.Program
import OrderStore.Proofs.Segmented.Reachable
import OrderStore.Proofs.Store.Reset
import Mathlib.Algebra.GroupWithZero.Nat

/-!
# The memory of a run

A run asks for the bytes of each region of its store, for the table of the segments
and for the table of the readers' handles. It fits if each of them is smaller than
2^63 bytes. That depends on the regions, not on the capacity as such: many segments
may have more bytes in all than one region could.
-/

namespace OrderStore

section

variable {sizes : List Nat}

theorem all_le_maxAllocation_iff :
    sizes.all (· ≤ maxAllocation) = true ↔ ∀ size ∈ sizes, size < 2 ^ 63 := by
  have hlimit (size : Nat) : size ≤ maxAllocation ↔ size < 2 ^ 63 := Nat.lt_succ_iff.symm
  simp only [List.all_eq_true, decide_eq_true_eq, hlimit]

/-- Allocations of less than 2^63 bytes each can be asked for. -/
theorem checkAllocations_of_lt (h : ∀ size ∈ sizes, size < 2 ^ 63) :
    checkAllocations sizes = .ok () := by
  rw [checkAllocations, if_pos (all_le_maxAllocation_iff.mpr h)]

/-- One larger allocation is enough for a fault. -/
theorem checkAllocations_of_not_lt (h : ¬ ∀ size ∈ sizes, size < 2 ^ 63) :
    checkAllocations sizes = .error {} := by
  rw [checkAllocations, if_neg (mt all_le_maxAllocation_iff.mp h)]

end

namespace SegmentedBuffer

/-- A buffer in segments consists of their table and of the segments. -/
theorem forall_allocations_iff {footprint : Footprint} {capacity count limit : Nat}
    (hcount : 1 ≤ count) :
    (∀ size ∈ allocations footprint capacity count, size < limit) ↔
      footprint.segment * count < limit ∧
        ∀ segment ∈ (new capacity count).segments.toList, segment.size < limit := by
  obtain ⟨last, rfl⟩ := Nat.exists_eq_add_of_le' hcount
  have hshares := mul_segmentSize_le capacity (last + 1)
  rw [Nat.add_mul, Nat.one_mul] at hshares
  rw [toList_segments_new, allocations, Nat.add_sub_cancel]
  generalize segmentSize capacity (last + 1) = size at hshares ⊢
  have hrest : (Segment.new (last * size) (capacity - last * size)).size =
      capacity - last * size := rfl
  constructor
  · intro h
    obtain ⟨htable, hsize, hlast⟩ : footprint.segment * (last + 1) < limit ∧ size < limit ∧
        capacity - last * size < limit := by simpa using h
    refine ⟨htable, fun segment hsegment => ?_⟩
    rcases List.mem_append.mp hsegment with hequal | hlarger
    · obtain ⟨i, -, rfl⟩ := List.mem_map.mp hequal
      exact hsize
    · obtain rfl := List.mem_singleton.mp hlarger
      exact hrest ▸ hlast
  · rintro ⟨htable, hsegments⟩
    have hlast := hsegments _ (List.mem_append_right _ List.mem_cons_self)
    rw [hrest] at hlast
    have hsize : size < limit := by omega
    simpa using ⟨htable, hsize, hlast⟩

end SegmentedBuffer

namespace Store

variable {footprint : Footprint} {strategy : Strategy} {config : StoreConfig}

/-- A store consists of its regions and, if it is segmented, of the table of its segments. -/
theorem forall_allocations_iff {capacity count limit : Nat} (policy : RetryPolicy)
    (hcount : 1 ≤ count) :
    (∀ size ∈ allocations footprint strategy capacity count, size < limit) ↔
      (strategy = .segmented → footprint.segment * count < limit) ∧
        ∀ segment ∈ (new strategy capacity count policy).segments, segment.size < limit := by
  cases strategy with
  | segmented =>
    rw [allocations, SegmentedBuffer.forall_allocations_iff hcount]
    simp [new, segments]
  | _ =>
    simp only [allocations, new, segments, List.mem_singleton, forall_eq, reduceCtorEq,
      false_implies, true_and]
    rfl

/-- No region of a new store is larger than the store. -/
theorem size_le_of_mem_new {capacity count : Nat} {policy : RetryPolicy} {segment : Segment}
    (h : segment ∈ (new strategy capacity count policy).segments) : segment.size ≤ capacity := by
  cases strategy with
  | segmented => exact SegmentedBuffer.Reachable.new.size_le h
  | _ =>
    obtain rfl := List.mem_singleton.mp h
    exact Nat.le_refl capacity

/-- A valid configuration gives the empty store if its allocations can be asked for. -/
theorem allocate_of_lt (hvalid : config.validate = .ok ())
    (h : ∀ size ∈ allocations footprint strategy config.capacity.toNat config.segmentCount.toNat,
      size < 2 ^ 63) :
    allocate footprint strategy config =
      .ok (new strategy config.capacity.toNat config.segmentCount.toNat config.optimistic) := by
  rw [allocate, hvalid]
  dsimp only
  rw [checkAllocations_of_lt h, build_eq_ok_iff.mpr ⟨hvalid, rfl⟩]
  rfl

/-- A valid configuration gives no store if one of its allocations is too large. -/
theorem allocate_of_not_lt (hvalid : config.validate = .ok ())
    (h : ¬ ∀ size ∈ allocations footprint strategy config.capacity.toNat config.segmentCount.toNat,
      size < 2 ^ 63) : allocate footprint strategy config = .error (.memory {}) := by
  rw [allocate, hvalid]
  dsimp only
  rw [checkAllocations_of_not_lt h]

end Store

/-- A run with a strategy asks for no more memory at once than there can be. -/
structure Options.Fits (o : Options) (footprint : Footprint) (config : StoreConfig)
    (strategy : Strategy) : Prop where
  /-- Each region of the store fits. -/
  regions : ∀ segment ∈ (Store.new strategy config.capacity.toNat config.segmentCount.toNat
    config.optimistic).segments, segment.size < 2 ^ 63
  /-- The table of the segments fits. -/
  table : strategy = .segmented → footprint.segment * config.segmentCount.toNat < 2 ^ 63
  /-- The table of the readers' handles fits. -/
  handles : footprint.handle * o.readers.toNat < 2 ^ 63

namespace Options

variable {footprint : Footprint} {o : Options} {config : StoreConfig} {strategy : Strategy}

/-- With less than 2^63 bytes in all and tables that fit, every strategy fits. -/
theorem fits_of_capacity_lt (hcapacity : config.capacity.toNat < 2 ^ 63)
    (htable : footprint.segment * config.segmentCount.toNat < 2 ^ 63)
    (hhandles : footprint.handle * o.readers.toNat < 2 ^ 63) : o.Fits footprint config strategy where
  regions _ hsegment := Nat.lt_of_le_of_lt (Store.size_le_of_mem_new hsegment) hcapacity
  table _ := htable
  handles := hhandles

/-- A run fits if all of its allocations can be asked for. -/
theorem fits_iff (hvalid : config.validate = .ok ()) : o.Fits footprint config strategy ↔
    (∀ size ∈ Store.allocations footprint strategy config.capacity.toNat config.segmentCount.toNat,
      size < 2 ^ 63) ∧ footprint.handle * o.readers.toNat < 2 ^ 63 := by
  obtain ⟨-, hcount, -⟩ := StoreConfig.validate_eq_ok_iff.mp hvalid
  rw [Store.forall_allocations_iff config.optimistic hcount]
  constructor
  · intro h
    exact ⟨⟨h.table, h.regions⟩, h.handles⟩
  · rintro ⟨⟨htable, hregions⟩, hhandles⟩
    exact ⟨hregions, htable, hhandles⟩

end Options

section

variable {m : Type → Type} [Monad m] {footprint : Footprint} {o : Options} {config : StoreConfig}
  {strategy : Strategy}

/-- A run that fits is a run on a new store. -/
theorem runStrategy_of_fits (now : m Nat) (hvalid : config.validate = .ok ())
    (h : o.Fits footprint config strategy) :
    runStrategy footprint now o config strategy = runStore now o config.recordCapacity strategy
      (.new strategy config.capacity.toNat config.segmentCount.toNat config.optimistic) := by
  obtain ⟨hstore, hhandles⟩ := (Options.fits_iff hvalid).mp h
  rw [runStrategy, Store.allocate_of_lt hvalid hstore]
  dsimp only
  rw [checkAllocations_of_lt (by simpa using hhandles)]

/-- A run that does not fit stops at once. -/
theorem runStrategy_of_not_fits (now : m Nat) (hvalid : config.validate = .ok ())
    (h : ¬ o.Fits footprint config strategy) :
    runStrategy footprint now o config strategy = pure (.error (.memory {})) := by
  rw [Options.fits_iff hvalid, not_and] at h
  by_cases hstore : ∀ size ∈ Store.allocations footprint strategy config.capacity.toNat
      config.segmentCount.toNat, size < 2 ^ 63
  · rw [runStrategy, Store.allocate_of_lt hvalid hstore]
    dsimp only
    rw [checkAllocations_of_not_lt (by simpa using h hstore)]
  · rw [runStrategy, Store.allocate_of_not_lt hvalid hstore]

end

end OrderStore
