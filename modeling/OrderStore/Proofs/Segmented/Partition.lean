import OrderStore.Proofs.Segmented.Layout
import OrderStore.Config.Basic

/-!
# The segments of a new buffer

Whatever its size and the number of its segments, a buffer is cut at multiples of
the record size into segments that follow each other without a gap, and the last one
has what is left over. So every byte belongs to one segment, which is the one that a
search for its offset finds. Each segment can hold a record exactly if the
configuration passes the checks that are made before a store is built.
-/

namespace OrderStore

namespace Segment

/-- How many bytes the segments have together. -/
def bytesIn (segments : List Segment) : Nat := (segments.map (·.size)).sum

/-- The segments lie one behind the other from `start` to `limit`, with no gap between
them and no overlap. -/
inductive Consecutive : (start : Nat) → List Segment → (limit : Nat) → Prop where
  /-- Without segments there is nothing in between. -/
  | nil (start : Nat) : Consecutive start [] start
  /-- The next segment starts where the one before it ends. -/
  | cons {segment : Segment} {segments : List Segment} {limit : Nat}
      (rest : Consecutive (segment.start + segment.size) segments limit) :
      Consecutive segment.start (segment :: segments) limit

theorem contains_eq_true_iff {segment : Segment} {offset : Nat} :
    segment.contains offset = true ↔
      segment.start ≤ offset ∧ offset < segment.start + segment.size := by
  simp only [contains, decide_eq_true_eq]
  omega

namespace Consecutive

variable {segment : Segment} {segments more : List Segment} {start middle limit offset : Nat}

/-- A single segment lies between its own ends. -/
theorem singleton {size : Nat} (hlimit : start + size = limit) :
    Consecutive start [.new start size] limit :=
  hlimit ▸ @cons (.new start size) [] _ (.nil _)

/-- As many bytes lie between the ends as the segments have. -/
theorem add_bytesIn (h : Consecutive start segments limit) : start + bytesIn segments = limit := by
  induction h with
  | nil => simp [bytesIn]
  | cons rest ih =>
    unfold bytesIn at ih ⊢
    rw [List.map_cons, List.sum_cons]
    omega

/-- Segments that follow on others are consecutive with them. -/
theorem append (h : Consecutive start segments middle) (hmore : Consecutive middle more limit) :
    Consecutive start (segments ++ more) limit := by
  induction h with
  | nil => exact hmore
  | cons rest ih => exact .cons (ih hmore)

/-- Every segment lies between the ends. -/
theorem bounds (h : Consecutive start segments limit) (hsegment : segment ∈ segments) :
    start ≤ segment.start ∧ segment.start + segment.size ≤ limit := by
  induction h with
  | nil => cases hsegment
  | cons rest ih =>
    have hrest := rest.add_bytesIn
    rcases List.mem_cons.mp hsegment with rfl | hmem
    · omega
    · have := ih hmem
      omega

/-- Every byte between the ends belongs to exactly one segment, and that is the one a
search finds. -/
theorem find?_eq_some (h : Consecutive start segments limit) (hstart : start ≤ offset)
    (hlimit : offset < limit) :
    ∃ index segment, segments[index]? = some segment ∧ segment.contains offset = true ∧
      segments.find? (·.contains offset) = some segment ∧
      ∀ (j : Nat) (other : Segment), segments[j]? = some other → other.contains offset = true →
        j = index := by
  induction h with
  | nil => omega
  | @cons first segments limit rest ih =>
    by_cases hinside : offset < first.start + first.size
    · have hfirst : first.contains offset = true := contains_eq_true_iff.mpr ⟨hstart, hinside⟩
      refine ⟨0, first, List.getElem?_cons_zero, hfirst, List.find?_cons_of_pos hfirst, ?_⟩
      intro j other hother howns
      cases j with
      | zero => rfl
      | succ j =>
        -- what follows starts behind the offset
        rw [List.getElem?_cons_succ] at hother
        have hbehind := rest.bounds (List.mem_of_getElem? hother)
        have hinside' := contains_eq_true_iff.mp howns
        omega
    · have hfirst : first.contains offset = false := by
        rw [Bool.eq_false_iff, ne_eq, contains_eq_true_iff]
        omega
      obtain ⟨index, segment, hsegment, howns, hfind, honly⟩ := ih (by omega) hlimit
      refine ⟨index + 1, segment, by rwa [List.getElem?_cons_succ], howns, ?_, ?_⟩
      · rw [List.find?_cons_of_neg (by simp [hfirst]), hfind]
      · intro j other hother hcontains
        cases j with
        | zero =>
          rw [List.getElem?_cons_zero, Option.some.injEq] at hother
          rw [← hother, hfirst] at hcontains
          cases hcontains
        | succ j =>
          rw [List.getElem?_cons_succ] at hother
          rw [honly j other hother hcontains]

/-- Behind the last segment no byte belongs to any. -/
theorem find?_eq_none (h : Consecutive start segments limit) (hlimit : limit ≤ offset) :
    segments.find? (·.contains offset) = none := by
  rw [List.find?_eq_none]
  intro segment hsegment
  have hbounds := h.bounds hsegment
  rw [contains_eq_true_iff]
  omega

end Consecutive

end Segment

namespace SegmentedBuffer

/-- Equal segments lie one behind the other. -/
theorem consecutive_range (count size : Nat) :
    Segment.Consecutive 0 ((List.range count).map fun i => .new (i * size) size)
      (count * size) := by
  induction count with
  | zero => simpa using Segment.Consecutive.nil 0
  | succ count ih =>
    rw [List.range_succ, List.map_append, List.map_singleton]
    exact ih.append (.singleton (by rw [Nat.add_mul, Nat.one_mul]))

/-- The segments of a new buffer have its bytes, one segment behind the other. -/
theorem consecutive_new (capacity : Nat) {count : Nat} (hcount : 1 ≤ count) :
    Segment.Consecutive 0 (new capacity count).segments.toList capacity := by
  obtain ⟨last, rfl⟩ : ∃ last, count = last + 1 := ⟨count - 1, by omega⟩
  have hshares := mul_segmentSize_le capacity (last + 1)
  rw [Nat.add_mul, Nat.one_mul] at hshares
  rw [toList_segments_new]
  exact (consecutive_range last _).append (.singleton (by omega))

/-- Each segment of a new buffer starts at a multiple of the record size. -/
theorem recordSize_dvd_start {capacity count index : Nat} {segment : Segment}
    (hsegment : (new capacity count).segments.toList[index]? = some segment) :
    recordSize ∣ segment.start := by
  rw [getElem?_segments_new] at hsegment
  split at hsegment
  · obtain rfl := Option.some.inj hsegment
    exact Dvd.dvd.mul_left (Nat.dvd_mul_left recordSize _) index
  · cases hsegment

end SegmentedBuffer

/-- The sizes in a configuration are in order if it is left to the retry policy whether
the configuration is valid. -/
theorem StoreConfig.validate_eq_policy_iff {c : StoreConfig} :
    c.validate = c.optimistic.validate ↔
      recordSize ≤ c.capacity.toNat ∧ c.segmentCount ≠ 0 ∧
        recordSize ≤ c.capacity.toNat / c.segmentCount.toNat := by
  -- no policy is to blame for a size
  have hpolicy {fault : ConfigError} (h : .error fault = c.optimistic.validate) :
      fault = .noWriteAttempts ∨ fault = .noReadAttempts := by
    unfold RetryPolicy.validate at h
    split at h
    · exact Or.inl (Except.error.inj h)
    · split at h
      · exact Or.inr (Except.error.inj h)
      · cases h
  unfold validate
  split
  · next hsmall =>
    refine ⟨fun h => ?_, fun ⟨hcapacity, _, _⟩ => by omega⟩
    rcases hpolicy h with hfault | hfault <;> cases hfault
  · next hcapacity =>
    split
    · next hnone =>
      refine ⟨fun h => ?_, fun ⟨_, hsome, _⟩ => absurd hnone hsome⟩
      rcases hpolicy h with hfault | hfault <;> cases hfault
    · next hsome =>
      split
      · next hshare =>
        refine ⟨fun h => ?_, fun ⟨_, _, hlarge⟩ => by omega⟩
        rcases hpolicy h with hfault | hfault <;> cases hfault
      · next hshare => exact ⟨fun _ => ⟨by omega, hsome, by omega⟩, fun _ => rfl⟩

namespace SegmentedBuffer

/-- Every segment of a new buffer can hold a record exactly if an even share of the bytes
can. -/
theorem forall_canHoldRecord_new_iff {capacity count : Nat} (hcount : 1 ≤ count) :
    (∀ segment ∈ (new capacity count).segments.toList, segment.region.canHoldRecord = true) ↔
      recordSize ≤ capacity / count := by
  constructor
  · intro h
    -- the first segment has no more than an even share
    have hget := getElem?_segments_new capacity count 0
    rw [if_pos (by omega), Nat.zero_mul, Nat.sub_zero] at hget
    have hfirst := Region.canHoldRecord_iff.mp (h _ (List.mem_of_getElem? hget))
    change recordSize ≤ if 0 + 1 = count then capacity else segmentSize capacity count at hfirst
    split at hfirst
    · next hone => rwa [← hone, Nat.div_one]
    · exact Nat.le_trans hfirst (Nat.div_mul_le_self ..)
  · intro hshare segment hsegment
    obtain ⟨index, hindex⟩ := List.mem_iff_getElem?.mp hsegment
    obtain ⟨-, -, hroom⟩ := hasRoom_new hshare hindex
    exact Region.canHoldRecord_of_hasRoom hroom

/-- A buffer of any size, in any number of segments, is cut into as many consecutive
segments that start at multiples of the record size. Together they have all bytes of the
buffer and no slot less than it has in one piece. The offset of a byte belongs to exactly
one of them, which is the one that is found for it, and no other offset belongs to any.
All of them can hold a record exactly if a configuration with these sizes is refused, if
at all, for its retry policy. -/
theorem segments_partition {capacity count : Nat} (hcount : 1 ≤ count) :
    ∃ b, withSegments capacity count = .ok b ∧ b.segments.size = count ∧
      Segment.Consecutive 0 b.segments.toList capacity ∧
      (∀ segment ∈ b.segments.toList, recordSize ∣ segment.start) ∧
      Segment.bytesIn b.segments.toList = capacity ∧
      Segment.slotsIn b.segments.toList = capacity / recordSize ∧
      (∀ offset < capacity, ∃ index segment, b.segments[index]? = some segment ∧
        segment.start ≤ offset ∧ offset < segment.start + segment.size ∧
        b.segmentFor? offset = some segment ∧
        ∀ (j : Nat) (other : Segment), b.segments[j]? = some other → other.start ≤ offset →
          offset < other.start + other.size → j = index) ∧
      (∀ offset, capacity ≤ offset → b.segmentFor? offset = none) ∧
      ∀ config : StoreConfig, config.capacity.toNat = capacity →
        config.segmentCount.toNat = count →
        ((∀ segment ∈ b.segments.toList, segment.region.canHoldRecord = true) ↔
          config.validate = config.optimistic.validate) := by
  have hconsecutive := consecutive_new capacity hcount
  have hbytes := hconsecutive.add_bytesIn
  rw [Nat.zero_add] at hbytes
  refine ⟨new capacity count, if_neg (by omega), Array.size_ofFn, hconsecutive, ?_, hbytes,
    (divide_new hcount).slotsIn_eq, fun offset hoffset => ?_, fun offset hoffset => ?_, ?_⟩
  · intro segment hsegment
    obtain ⟨index, hindex⟩ := List.mem_iff_getElem?.mp hsegment
    exact recordSize_dvd_start hindex
  · obtain ⟨index, segment, hsegment, howns, hfind, honly⟩ :=
      hconsecutive.find?_eq_some (Nat.zero_le offset) hoffset
    obtain ⟨hstart, hend⟩ := Segment.contains_eq_true_iff.mp howns
    refine ⟨index, segment, ?_, hstart, hend, ?_, fun j other hother hother_start hother_end => ?_⟩
    · rw [← Array.getElem?_toList, hsegment]
    · rw [segmentFor?, ← Array.find?_toList, hfind]
    · rw [← Array.getElem?_toList] at hother
      exact honly j other hother (Segment.contains_eq_true_iff.mpr ⟨hother_start, hother_end⟩)
  · rw [segmentFor?, ← Array.find?_toList, hconsecutive.find?_eq_none hoffset]
  · intro config hcapacity hsegments
    have hsome : config.segmentCount ≠ 0 := by
      rintro hzero
      rw [hzero] at hsegments
      simp at hsegments
      omega
    have hshare : recordSize ≤ capacity / count → recordSize ≤ capacity := fun h =>
      Nat.le_trans h (Nat.div_le_self ..)
    rw [forall_canHoldRecord_new_iff hcount, StoreConfig.validate_eq_policy_iff, hcapacity,
      hsegments]
    exact ⟨fun h => ⟨hshare h, hsome, h⟩, fun ⟨_, _, h⟩ => h⟩

/-- A thousand bytes in sixteen segments have their fifteen slots, although not every
segment can hold a record. -/
theorem segments_partition_oversplit :
    1 ≤ 16 ∧ ∃ b, withSegments 1000 16 = .ok b ∧ Segment.slotsIn b.segments.toList = 15 ∧
      ¬ ∀ segment ∈ b.segments.toList, segment.region.canHoldRecord = true := by
  have hcount : 1 ≤ 16 := by decide
  obtain ⟨b, hb, -, -, -, -, hslots, -, -, hconfig⟩ := @segments_partition 1000 16 hcount
  have hrefused : ({ capacity := 1000, segmentCount := 16 } : StoreConfig).validate ≠
      (StoreConfig.optimistic {}).validate := by decide
  refine ⟨hcount, b, hb, hslots, fun hall => hrefused ?_⟩
  exact (hconfig { capacity := 1000, segmentCount := 16 } (by decide) (by decide)).mp hall

end SegmentedBuffer

end OrderStore
