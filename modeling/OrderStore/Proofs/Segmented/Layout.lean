import OrderStore.Proofs.Store.Segments
import Mathlib.Algebra.BigOperators.Group.List.Basic

/-!
# How segments divide a buffer

Each segment starts on the slot behind those of the segments before it, and the
slots of all segments are as many as the buffer would have in one piece. Where
segments lie never changes, so what holds of a new buffer holds ever after.
-/

namespace OrderStore

namespace Segment

/-- How many records the segments hold when all are full. -/
def slotsIn (segments : List Segment) : Nat := (segments.map (·.region.slots)).sum

/-- How many more records the segments take. -/
def roomIn (segments : List Segment) : Nat := (segments.map (·.region.room)).sum

theorem slotsIn_append (segments more : List Segment) :
    slotsIn (segments ++ more) = slotsIn segments + slotsIn more := by
  rw [slotsIn, List.map_append, List.sum_append, slotsIn, slotsIn]

/-- Bytes in use and free slots together make up all slots. -/
theorem usedIn_add_roomIn {segments : List Segment}
    (h : ∀ segment ∈ segments, ∃ orders, segment.region.Represents orders) :
    usedIn segments + recordSize * roomIn segments = recordSize * slotsIn segments := by
  induction segments with
  | nil => rfl
  | cons segment segments ih =>
    obtain ⟨orders, horders⟩ := h segment List.mem_cons_self
    have hrest := ih fun other hother => h other (List.mem_cons_of_mem _ hother)
    have hfirst : segment.region.used + recordSize * segment.region.room =
        recordSize * segment.region.slots := by
      rw [horders.used, ← horders.length_add_room, Nat.mul_comm, ← Nat.mul_add]
    unfold usedIn roomIn slotsIn at hrest ⊢
    rw [List.foldr_cons, List.map_cons, List.map_cons, List.sum_cons, List.sum_cons, Nat.mul_add,
      Nat.mul_add]
    omega

/-- There is room if some segment has it. -/
theorem roomIn_pos_iff {segments : List Segment} :
    0 < roomIn segments ↔ ∃ segment ∈ segments, segment.region.hasRoom = true := by
  simp only [roomIn, List.sum_pos_iff_exists_pos_nat, List.mem_map, exists_exists_and_eq_and,
    Region.hasRoom_iff_room_pos]

/-- Changing one segment changes the room by what that segment gains or loses. -/
theorem roomIn_modify {segments : List Segment} {index : Nat} {segment : Segment}
    (hsegment : segments[index]? = some segment) (change : Segment → Segment) :
    roomIn (segments.modify index change) + segment.region.room =
      roomIn segments + (change segment).region.room := by
  unfold roomIn
  induction segments generalizing index with
  | nil => simp at hsegment
  | cons other segments ih =>
    cases index with
    | zero =>
      obtain rfl : other = segment := by simpa using hsegment
      rw [List.modify_zero_cons, List.map_cons, List.map_cons, List.sum_cons, List.sum_cons]
      omega
    | succ index =>
      have hindex : segments[index]? = some segment := by simpa using hsegment
      have hrest := ih hindex
      rw [List.modify_succ_cons, List.map_cons, List.map_cons, List.sum_cons, List.sum_cons]
      omega

/-- If only one segment may have room, all the room is there. -/
theorem roomIn_eq_of_only {segments : List Segment} {index : Nat} {segment : Segment}
    (hsegment : segments[index]? = some segment)
    (honly : ∀ (j : Nat) (other : Segment), segments[j]? = some other →
      other.region.hasRoom = true → j = index) : roomIn segments = segment.region.room := by
  -- without that segment there is no room
  let gone : Segment → Segment := fun segment => { segment with region := .new 0 }
  have hmodify := roomIn_modify hsegment gone
  have hnone : roomIn (segments.modify index gone) = 0 := by
    rw [← Nat.le_zero, ← Nat.not_lt, roomIn_pos_iff]
    rintro ⟨other, hother, hroom⟩
    obtain ⟨j, hj⟩ := List.mem_iff_getElem?.mp hother
    rw [List.getElem?_modify] at hj
    obtain ⟨before, hbefore, rfl⟩ := Option.map_eq_some_iff.mp hj
    by_cases heq : index = j
    · rw [if_pos heq] at hroom
      cases hroom
    · rw [if_neg heq] at hroom
      exact heq (honly j before hbefore hroom).symm
  have hgone : (Region.new 0).room = 0 := by decide
  change _ = _ + (Region.new 0).room at hmodify
  omega

/-- The slots are determined by where the segments lie. -/
theorem slotsIn_eq (segments : List Segment) :
    slotsIn segments = ((segments.map span).map fun span => (span.2 - span.1) / recordSize).sum := by
  rw [slotsIn, List.map_map]
  congr 1
  apply List.map_congr_left
  intro segment _
  simp [Region.slots, span, size]

/-- The segments divide `capacity` bytes without losing a slot. -/
structure Divide (segments : List Segment) (capacity : Nat) : Prop where
  /-- Each segment starts behind the slots of those before it. -/
  start_eq : ∀ {index : Nat} {segment : Segment}, segments[index]? = some segment →
    segment.start = recordSize * slotsIn (segments.take index)
  /-- There are as many slots as in one piece. -/
  slotsIn_eq : slotsIn segments = capacity / recordSize

/-- Only where the segments lie matters. -/
theorem Divide.of_span {segments segments' : List Segment} {capacity : Nat}
    (h : Divide segments capacity) (hspan : segments'.map span = segments.map span) :
    Divide segments' capacity where
  start_eq := by
    intro index segment' hsegment'
    have hget : (segments.map span)[index]? = some segment'.span := by
      rw [← hspan, List.getElem?_map, hsegment']
      rfl
    rw [List.getElem?_map] at hget
    obtain ⟨segment, hsegment, heq⟩ := Option.map_eq_some_iff.mp hget
    have hstart : segment.start = segment'.start := congrArg Prod.fst heq
    have hbefore : (segments.take index).map span = (segments'.take index).map span := by
      rw [List.map_take, List.map_take, hspan]
    rw [← hstart, h.start_eq hsegment, Segment.slotsIn_eq, Segment.slotsIn_eq, hbefore]
  slotsIn_eq := by rw [← h.slotsIn_eq, Segment.slotsIn_eq, Segment.slotsIn_eq, hspan]

/-- A single segment holds what fits. -/
theorem divide_singleton {r : Region} : Divide [⟨0, r⟩] r.capacity where
  start_eq := by
    intro index segment hsegment
    cases index with
    | zero =>
      obtain rfl := Option.some.inj hsegment
      rfl
    | succ index => cases hsegment
  slotsIn_eq := by simp [slotsIn, Region.slots]

end Segment

namespace SegmentedBuffer

/-- Without room in any segment there is none. -/
theorem roomIn_eq_zero_iff {b : SegmentedBuffer} :
    Segment.roomIn b.segments.toList = 0 ↔ ∀ index, b.hasRoom index = false := by
  rw [forall_hasRoom_eq_false_iff, ← Nat.le_zero, ← Nat.not_lt, Segment.roomIn_pos_iff]
  simp only [Array.mem_toList_iff, not_exists, not_and, Bool.not_eq_true]

/-- No segment but the last has bytes to spare, so that none of them is more than
its share. -/
theorem mul_segmentSize_le (capacity count : Nat) :
    count * segmentSize capacity count ≤ capacity := by
  have hshare : segmentSize capacity count ≤ capacity / count := Nat.div_mul_le_self ..
  calc count * segmentSize capacity count ≤ count * (capacity / count) :=
        Nat.mul_le_mul_left count hshare
    _ ≤ capacity := Nat.mul_div_le ..

/-- How many records each segment but the last holds. -/
def segmentSlots (capacity count : Nat) : Nat := capacity / count / recordSize

theorem getElem?_segments_new (capacity count index : Nat) :
    (new capacity count).segments.toList[index]? =
      if index < count then
        some (.new (index * segmentSize capacity count)
          (if index + 1 = count then capacity - index * segmentSize capacity count
          else segmentSize capacity count))
      else none := by
  rw [new, Array.toList_ofFn, List.getElem?_ofFn]
  split <;> rfl

/-- The segments of a new buffer: equal ones, and a last one that has the rest. -/
theorem toList_segments_new (capacity last : Nat) :
    let size := segmentSize capacity (last + 1)
    (new capacity (last + 1)).segments.toList =
      ((List.range last).map fun i => .new (i * size) size) ++
        [.new (last * size) (capacity - last * size)] := by
  intro size
  apply List.ext_getElem?
  intro i
  rw [getElem?_segments_new, List.getElem?_append, List.length_map, List.length_range]
  rcases Nat.lt_trichotomy i last with hlt | rfl | hgt
  · rw [if_pos (by omega), if_neg (by omega), if_pos hlt, List.getElem?_map,
      List.getElem?_range hlt, Option.map_some]
  · simp [size]
  · rw [if_neg (by omega), if_neg (by omega), List.getElem?_eq_none]
    rw [List.length_singleton]
    omega

/-- Each segment of a new buffer holds a record if an even share of the bytes does. -/
theorem hasRoom_new {capacity count index : Nat} {segment : Segment}
    (hshare : recordSize ≤ capacity / count)
    (hsegment : (new capacity count).segments.toList[index]? = some segment) :
    segment.start = index * segmentSize capacity count ∧ segment.region.tracker.position = 0 ∧
      segment.region.hasRoom = true := by
  rw [getElem?_segments_new] at hsegment
  split at hsegment
  · next hindex =>
    obtain rfl := Option.some.inj hsegment
    have hsize : recordSize ≤ segmentSize capacity count := by
      have hslots := (Nat.div_pos_iff.mpr ⟨recordSize_pos, hshare⟩)
      exact Nat.le_mul_of_pos_left recordSize hslots
    have hfits : (index + 1) * segmentSize capacity count ≤ capacity :=
      Nat.le_trans (Nat.mul_le_mul_right _ hindex) (mul_segmentSize_le capacity count)
    rw [Nat.add_mul, Nat.one_mul] at hfits
    refine ⟨rfl, rfl, Region.hasRoom_iff.mpr ?_⟩
    change 0 + recordSize ≤ if index + 1 = count then _ else _
    split
    · omega
    · omega
  · cases hsegment

/-- Equal segments have as many slots each. -/
theorem slotsIn_range (count size : Nat) :
    Segment.slotsIn ((List.range count).map fun i => .new (i * size) size) =
      count * (size / recordSize) := by
  have hslots : ((List.range count).map fun i => Segment.new (i * size) size).map
      (·.region.slots) = (List.range count).map fun _ => size / recordSize := List.map_map
  rw [Segment.slotsIn, hslots, List.map_const', List.length_range, List.sum_replicate_nat]

/-- Segments of the even size have as many slots as records fit into an even share. -/
theorem segmentSize_div (capacity count : Nat) :
    segmentSize capacity count / recordSize = segmentSlots capacity count :=
  Nat.mul_div_cancel _ recordSize_pos

/-- Even shares of whole slots are no more than all slots. -/
theorem mul_segmentSlots_le (capacity count : Nat) :
    count * segmentSlots capacity count ≤ capacity / recordSize := by
  rw [Nat.le_div_iff_mul_le recordSize_pos, Nat.mul_assoc]
  exact mul_segmentSize_le capacity count

/-- What some segments of the even size leave over is whole slots less. -/
theorem sub_mul_segmentSize_div (capacity count index : Nat) :
    (capacity - index * segmentSize capacity count) / recordSize =
      capacity / recordSize - index * segmentSlots capacity count := by
  rw [segmentSize, ← Nat.mul_assoc, Nat.mul_comm _ recordSize]
  exact Nat.sub_mul_div ..

/-- The segments before a given one have as many slots as its number says. -/
theorem slotsIn_take_new {capacity count index : Nat} (hindex : index < count) :
    Segment.slotsIn ((new capacity count).segments.toList.take index) =
      index * segmentSlots capacity count := by
  obtain ⟨last, rfl⟩ : ∃ last, count = last + 1 := ⟨count - 1, by omega⟩
  have hlength : index ≤ ((List.range last).map fun i => Segment.new
      (i * segmentSize capacity (last + 1)) (segmentSize capacity (last + 1))).length := by
    rw [List.length_map, List.length_range]
    omega
  rw [toList_segments_new, List.take_append_of_le_length hlength, ← List.map_take,
    List.take_range, Nat.min_eq_left (by omega), slotsIn_range, segmentSize_div]

/-- The segments of a new buffer divide it without losing a slot. -/
theorem divide_new {capacity count : Nat} (hcount : 1 ≤ count) :
    Segment.Divide (new capacity count).segments.toList capacity where
  start_eq := by
    intro index segment hsegment
    rw [getElem?_segments_new] at hsegment
    split at hsegment
    · next hindex =>
      obtain rfl := Option.some.inj hsegment
      rw [slotsIn_take_new hindex, Nat.mul_left_comm, Nat.mul_comm recordSize]
      rfl
    · cases hsegment
  slotsIn_eq := by
    obtain ⟨last, rfl⟩ : ∃ last, count = last + 1 := ⟨count - 1, by omega⟩
    have hle : last * segmentSlots capacity (last + 1) ≤ capacity / recordSize :=
      Nat.le_trans (Nat.mul_le_mul_right _ (Nat.le_succ last))
        (mul_segmentSlots_le capacity (last + 1))
    have hsingle : Segment.slotsIn [.new (last * segmentSize capacity (last + 1))
        (capacity - last * segmentSize capacity (last + 1))] =
          (capacity - last * segmentSize capacity (last + 1)) / recordSize := Nat.add_zero _
    rw [toList_segments_new, Segment.slotsIn_append, slotsIn_range, segmentSize_div, hsingle,
      sub_mul_segmentSize_div]
    omega

end SegmentedBuffer

end OrderStore
