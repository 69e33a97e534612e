import OrderStore.Proofs.Segmented.Reachable

/-!
# Where a batch goes

A batch goes to the first segment with room for all of it, or else to one with as
much room as any. Room is compared in bytes and the answer counts records, but bytes
that are too few for a record decide nothing. In its segment the batch lies behind
what was there before, and nothing else changes.
-/

namespace OrderStore

namespace Segment

variable {segments : List Segment}

/-- How many more records the roomiest of some segments takes. -/
def mostRoomIn (segments : List Segment) : Nat := (segments.map (·.region.room)).max?.getD 0

theorem mostRoomIn_le_iff {limit : Nat} :
    mostRoomIn segments ≤ limit ↔ ∀ segment ∈ segments, segment.region.room ≤ limit := by
  unfold mostRoomIn
  cases hmax : (segments.map (·.region.room)).max? with
  | none =>
    obtain rfl : segments = [] := by simpa using hmax
    simp
  | some most => simpa using List.max?_le_iff hmax

theorem room_le_mostRoomIn {segment : Segment} (hsegment : segment ∈ segments) :
    segment.region.room ≤ mostRoomIn segments :=
  mostRoomIn_le_iff.mp (Nat.le_refl _) segment hsegment

/-- No segment has room if there is none in all. -/
theorem mostRoomIn_eq_zero_iff : mostRoomIn segments = 0 ↔ roomIn segments = 0 := by
  rw [← Nat.le_zero, mostRoomIn_le_iff, ← Nat.le_zero, ← Nat.not_lt, roomIn_pos_iff]
  simp only [Region.hasRoom_iff_room_pos, not_exists, not_and, Nat.not_lt]

/-- As many records fit as there are bytes for. -/
theorem le_room_iff {r : Region} {count : Nat} :
    count ≤ r.room ↔ count * recordSize ≤ r.tracker.remaining :=
  Nat.le_div_iff_mul_le recordSize_pos

/-- The segment for a batch of `count` records: the first with room for all of them,
and if there is none, one with as much room as any. -/
structure TakesBatch (segments : List Segment) (count index : Nat) (segment : Segment) : Prop where
  /-- It is one of the segments. -/
  getElem?_eq : segments[index]? = some segment
  /-- If another segment has room for all of the batch, so has this one, and it does not
  come after the other. -/
  first : ∀ {j : Nat} {other : Segment}, segments[j]? = some other → count ≤ other.region.room →
    index ≤ j ∧ count ≤ segment.region.room
  /-- It takes as much of the batch as any segment would. -/
  most : min count (mostRoomIn segments) ≤ segment.region.room

namespace TakesBatch

variable {count index : Nat} {segment : Segment}

/-- What the segment takes of the batch is what the roomiest would. -/
theorem min_room (h : TakesBatch segments count index segment) :
    min count segment.region.room = min count (mostRoomIn segments) := by
  have hle := room_le_mostRoomIn (List.mem_of_getElem? h.getElem?_eq)
  have := h.most
  omega

/-- When there is nothing to write or nowhere to write it, any segment will do. -/
theorem of_nothing (hsegment : segments[0]? = some segment)
    (h : count = 0 ∨ mostRoomIn segments = 0) : TakesBatch segments count 0 segment where
  getElem?_eq := hsegment
  first := by
    intro j other hother hroom
    have := room_le_mostRoomIn (List.mem_of_getElem? hother)
    omega
  most := by omega

end TakesBatch

end Segment

/-! ## The choice -/

namespace SegmentedBuffer

open Segment

/-- The free bytes of the roomiest segment found so far. -/
def bytesOf (best : Option (Nat × Nat)) : Nat := (best.map (·.2)).getD 0

/-- The roomiest segment of several has as many free bytes as any of them, and as the
best one before them. -/
theorem le_bytesOf_roomiest (best : Option (Nat × Nat)) (index : Nat) (segments : List Segment) :
    bytesOf best ≤ bytesOf (roomiest best index segments) ∧
      ∀ segment ∈ segments,
        segment.region.tracker.remaining ≤ bytesOf (roomiest best index segments) := by
  induction segments generalizing best index with
  | nil => exact ⟨Nat.le_refl _, nofun⟩
  | cons segment segments ih =>
    let room := segment.region.tracker.remaining
    let next := if bytesOf best < room then some (index, room) else best
    have hnext : bytesOf best ≤ bytesOf next ∧ room ≤ bytesOf next := by
      dsimp only [next]
      split
      · next hless => exact ⟨Nat.le_of_lt hless, Nat.le_refl room⟩
      · next hmore => exact ⟨Nat.le_refl _, Nat.not_lt.mp hmore⟩
    obtain ⟨hbest, hothers⟩ := ih next (index + 1)
    change bytesOf best ≤ bytesOf (roomiest next (index + 1) segments) ∧
      ∀ other ∈ segment :: segments,
        other.region.tracker.remaining ≤ bytesOf (roomiest next (index + 1) segments)
    refine ⟨Nat.le_trans hnext.1 hbest, fun other hother => ?_⟩
    rcases List.mem_cons.mp hother with rfl | hmem
    · exact Nat.le_trans hnext.2 hbest
    · exact hothers other hmem

variable {b : SegmentedBuffer} {count index : Nat}

/-- When no segment has room for all of a batch, the roomiest one is taken if that has
room for a record. -/
theorem segmentForBatch?_of_none
    (hnone : b.segments.findIdx? (count * recordSize ≤ ·.region.tracker.remaining) = none) :
    (∃ index segment, b.segmentForBatch? (count * recordSize) = some index ∧
        b.segments.toList[index]? = some segment ∧
          mostRoomIn b.segments.toList ≤ segment.region.room) ∨
      b.segmentForBatch? (count * recordSize) = none ∧ mostRoomIn b.segments.toList = 0 := by
  obtain ⟨-, hmost⟩ := le_bytesOf_roomiest none 0 b.segments.toList
  unfold segmentForBatch?
  rw [hnone]
  cases hbest : roomiest none 0 b.segments.toList with
  | none =>
    rw [hbest] at hmost
    refine Or.inr ⟨rfl, Nat.le_zero.mp (mostRoomIn_le_iff.mpr fun segment hsegment => ?_)⟩
    have hbytes : segment.region.tracker.remaining = 0 := Nat.le_zero.mp (hmost segment hsegment)
    have hroom : segment.region.room = segment.region.tracker.remaining / recordSize := rfl
    rw [hroom, hbytes, Nat.zero_div]
  | some found =>
    obtain ⟨index, room⟩ := found
    rw [hbest] at hmost
    -- the roomiest in bytes is the roomiest in records
    have hrecords : mostRoomIn b.segments.toList ≤ room / recordSize :=
      mostRoomIn_le_iff.mpr fun segment hsegment => Nat.div_le_div_right (hmost segment hsegment)
    by_cases hfits : recordSize ≤ room
    · rcases roomiest_eq_some hbest with hstart | ⟨i, segment, hindex, hsegment, rfl⟩
      · cases hstart
      · obtain rfl : index = i := by omega
        exact Or.inl ⟨index, segment, if_pos hfits, hsegment, hrecords⟩
    · have hzero : room / recordSize = 0 := Nat.div_eq_of_lt (Nat.not_le.mp hfits)
      exact Or.inr ⟨if_neg hfits, by omega⟩

/-- The segment that is chosen for a batch is the one for it, and none is chosen only
when no segment has room. -/
theorem segmentForBatch?_cases (b : SegmentedBuffer) (count : Nat) :
    (∃ index segment, b.segmentForBatch? (count * recordSize) = some index ∧
        TakesBatch b.segments.toList count index segment) ∨
      b.segmentForBatch? (count * recordSize) = none ∧ mostRoomIn b.segments.toList = 0 := by
  cases hfirst : b.segments.findIdx? (count * recordSize ≤ ·.region.tracker.remaining) with
  | some index =>
    obtain ⟨hindex, hfits, hbefore⟩ := Array.findIdx?_eq_some_iff_getElem.mp hfirst
    have hroom : count ≤ b.segments[index].region.room :=
      le_room_iff.mpr (of_decide_eq_true hfits)
    refine Or.inl ⟨index, b.segments[index], by rw [segmentForBatch?, hfirst], ?_, ?_, by omega⟩
    · rw [Array.getElem?_toList, Array.getElem?_eq_getElem hindex]
    · intro j other hother hall
      refine ⟨Nat.not_lt.mp fun hlt => hbefore j hlt ?_, hroom⟩
      rw [Array.getElem?_toList] at hother
      obtain ⟨hj, rfl⟩ := Array.getElem?_eq_some_iff.mp hother
      exact decide_eq_true (le_room_iff.mp hall)
  | none =>
    refine (segmentForBatch?_of_none hfirst).imp_left ?_
    rintro ⟨index, segment, hchosen, hsegment, hmost⟩
    refine ⟨index, segment, hchosen, hsegment, fun hother hall => ?_, by omega⟩
    have hmem := List.mem_of_getElem? hother
    have hbytes := Array.findIdx?_eq_none_iff.mp hfirst _ (Array.mem_toList_iff.mp hmem)
    exact absurd (le_room_iff.mp hall) (of_decide_eq_false hbytes)

end SegmentedBuffer

namespace Store

open Segment

/-- A segmented buffer writes a batch to the segment for it, or there is nothing to
write or nowhere to write it. -/
theorem exists_takesBatch {b : SegmentedBuffer} (hpos : 0 < b.segments.toList.length)
    (orders : List Order) :
    ∃ index segment, TakesBatch b.segments.toList orders.length index segment ∧
      ((segmented b).target? (.appendAll orders) = some index ∨
        (segmented b).target? (.appendAll orders) = none ∧
          (orders.length = 0 ∨ mostRoomIn b.segments.toList = 0)) := by
  have hzero := List.getElem?_eq_getElem hpos
  change ∃ index segment, _ ∧ (b.nextForBatch? orders = some index ∨
    b.nextForBatch? orders = none ∧ _)
  unfold SegmentedBuffer.nextForBatch?
  cases orders with
  | nil => exact ⟨0, _, .of_nothing hzero (Or.inl rfl), Or.inr ⟨rfl, Or.inl rfl⟩⟩
  | cons order orders =>
    rcases b.segmentForBatch?_cases (order :: orders).length with
      ⟨index, segment, hchosen, htakes⟩ | ⟨hnone, hfull⟩
    · exact ⟨index, segment, htakes, Or.inl hchosen⟩
    · exact ⟨0, _, .of_nothing hzero (Or.inr hfull), Or.inr ⟨hnone, Or.inr hfull⟩⟩

/-! ## What the write does -/

/-- Between two states of a store the first `written` of some orders came to segment
`index`, one behind the other, and nothing else happened. -/
structure Batched (s s' : Store) (orders : List Order) (written index : Nat) (segment : Segment) :
    Prop where
  /-- The orders are read back from the position of the segment on. -/
  read_eq : ∀ {i : Nat} {order : Order}, i < written → orders[i]? = some order →
    s'.read (segment.start + segment.region.used + i * recordSize) =
      some { order with symbol := truncateSymbol order.symbol }
  /-- The segment uses as many more bytes. -/
  used_eq : s'.segments[index]?.map (·.region.used) =
    some (segment.region.used + written * recordSize)
  /-- The other segments are as they were. -/
  others : ∀ j, j ≠ index → s'.segments[j]? = s.segments[j]?
  /-- What was read before still is. -/
  kept : ∀ offset, (s.read offset).isSome → s'.read offset = s.read offset

namespace Records

variable {s : Store} {log : List (Nat × Order)} {orders : List Order} {index : Nat}
  {segment : Segment}

/-- A batch leaves every record as it is. -/
theorem read_appendAll (h : s.Records log) {offset : Nat} (hread : (s.read offset).isSome) :
    (s.appendAll orders).2.read offset = s.read offset := by
  have hreset : Call.appendAll orders ≠ .reset := nofun
  have hforce : Call.appendAll orders ≠ .forceReset := nofun
  exact h.read_perform_of_isSome hreset hforce (fun _ => Call.noConfusion) hread

/-- A batch that finds no segment changes nothing. -/
theorem batched_of_none (h : s.Records log) (htarget : s.target? (.appendAll orders) = none)
    (hsegment : s.segments[index]? = some segment) :
    (s.appendAll orders).1 = 0 ∧ s.Batched (s.appendAll orders).2 orders 0 index segment := by
  have hreset : Call.appendAll orders ≠ .reset := nofun
  have hforce : Call.appendAll orders ≠ .forceReset := nofun
  have hsegments : (s.appendAll orders).2.segments = s.segments :=
    segments_perform_of_none h.atRest.quiet hreset hforce htarget
  have hzero : (s.appendAll orders).1 = 0 := by
    rw [appendAll_fst h.atRest.quiet, landings, htarget]
    exact List.length_nil
  refine ⟨hzero, fun hi => absurd hi (Nat.not_lt_zero _), ?_, fun j _ => by rw [hsegments],
    fun offset => h.read_appendAll⟩
  rw [hsegments, hsegment, Option.map_some, Nat.zero_mul, Nat.add_zero]

/-- A batch fills the segment that it finds from its position on. -/
theorem batched_of_target (h : s.Records log)
    (htarget : s.target? (.appendAll orders) = some index)
    (hsegment : s.segments[index]? = some segment) :
    (s.appendAll orders).1 = min orders.length segment.region.room ∧
      s.Batched (s.appendAll orders).2 orders (s.appendAll orders).1 index segment := by
  have hroom : segment.region.hasRoom = true := by
    obtain ⟨chosen, hchosen, hroom⟩ := hasRoom_of_target? (fun _ h => Call.noConfusion h) htarget
    obtain rfl := Option.some.inj (hsegment.symm.trans hchosen)
    exact hroom
  have hmake := Region.makeRoom_of_room hroom
  have hlandings : s.landings (.appendAll orders) = landingsFrom
      (segment.start + segment.region.tracker.position) (orders.take segment.region.room) := by
    rw [landings_of_target htarget hsegment, Segment.landings, hmake]
    rfl
  have hwritten : (s.appendAll orders).1 = min orders.length segment.region.room := by
    rw [appendAll_fst h.atRest.quiet, hlandings, length_landingsFrom, List.length_take, Nat.min_comm]
  have hsegments : (s.appendAll orders).2.segments = s.segments.modify index (·.receive orders) :=
    segments_perform_of_target h.atRest.quiet htarget
  refine ⟨hwritten, ?_, ?_, fun j hj => ?_, fun offset => h.read_appendAll⟩
  · intro i order hi horder
    have htaken : (orders.take segment.region.room)[i]? = some order := by
      rw [List.getElem?_take, if_pos (by omega), horder]
    have hmem : (segment.start + segment.region.used + i * recordSize, order) ∈
        s.landings (.appendAll orders) := by
      rw [hlandings]
      exact mem_landingsFrom_iff.mpr ⟨i, htaken, rfl⟩
    exact h.read_landed hmem
  · obtain ⟨held, hheld⟩ := h.atRest.represents segment (List.mem_of_getElem? hsegment)
    have hused := (hheld.pushAll orders).used
    rw [hsegments, List.getElem?_modify_eq, hsegment, Option.map_eq_map, Option.map_some,
      Option.map_some, Segment.receive, hmake, hused, hheld.used, List.length_append, List.length_take,
      Nat.add_mul, hwritten, Nat.min_comm orders.length]
  · rw [hsegments, List.getElem?_modify_ne _ _ (Ne.symm hj)]

end Records

/-- A batch goes to a single segment of a segmented buffer, in whatever state that is,
and as much of it is written as any one segment has room for. It goes to the first
segment with room for all of it, if there is one. There its orders lie one behind the
other from the segment's position on; every other segment stays as it is, and so does
every read that found an order. Nothing is written only if there is nothing to write or
the buffer is full. -/
theorem appendAll_fills_one_segment {capacity count : Nat} {b : SegmentedBuffer}
    (hcount : 1 ≤ count) (hreachable : b.Reachable capacity count) (orders : List Order) :
    let s := segmented b
    let written := (s.appendAll orders).1
    written = min orders.length (mostRoomIn s.segments) ∧
      (written = 0 ↔ orders = [] ∨ s.remainingRecords = 0) ∧
        ∃ index segment, TakesBatch s.segments orders.length index segment ∧
          s.Batched (s.appendAll orders).2 orders written index segment := by
  intro s written
  obtain ⟨log, hrecords⟩ := hreachable.exists_records hcount
  have hroom : s.remainingRecords = 0 ↔ mostRoomIn s.segments = 0 := by
    rw [(hreachable.measured hcount).remainingRecords_eq, mostRoomIn_eq_zero_iff]
  obtain ⟨index, segment, htakes, htarget⟩ :=
    exists_takesBatch (Nat.lt_of_lt_of_eq hcount hreachable.length_segments.symm) orders
  have hwritten : written = min orders.length (mostRoomIn s.segments) ∧
      s.Batched (s.appendAll orders).2 orders written index segment := by
    rcases htarget with hsome | ⟨hnone, hnothing⟩
    · obtain ⟨hmin, hbatched⟩ := hrecords.batched_of_target hsome htakes.getElem?_eq
      exact ⟨hmin.trans htakes.min_room, hbatched⟩
    · obtain ⟨hzero, hbatched⟩ := hrecords.batched_of_none hnone htakes.getElem?_eq
      have hmin : min orders.length (mostRoomIn b.segments.toList) = 0 := by omega
      refine ⟨hzero.trans hmin.symm, ?_⟩
      rw [show written = 0 from hzero]
      exact hbatched
  refine ⟨hwritten.1, ?_, index, segment, htakes, hwritten.2⟩
  rw [hwritten.1, hroom, ← List.length_eq_zero_iff]
  omega

/-- Of six orders five are written, since the first segment has room for one more and
the second, with bytes to spare, for five. -/
theorem appendAll_fills_one_segment_partly :
    let b := ((SegmentedBuffer.new 600 2).appendAll [{}, {}, {}]).2
    let orders := [1, 2, 3, 4, 5, 6].map fun id => ({ id := id } : Order)
    1 ≤ 2 ∧ b.Reachable 600 2 ∧ (b.appendAll orders).1 = 5 ∧
      ∃ index segment, TakesBatch b.segments.toList 6 index segment ∧
        (segmented b).Batched ((segmented b).appendAll orders).2 orders 5 index segment := by
  intro b orders
  have hcount : 1 ≤ 2 := by decide
  have hreachable : b.Reachable 600 2 := .perform .new (.appendAll [{}, {}, {}]) rfl
  have hfive : (b.appendAll orders).1 = 5 := by decide +kernel
  obtain ⟨-, -, hbatch⟩ := appendAll_fills_one_segment hcount hreachable orders
  exact ⟨hcount, hreachable, hfive, hfive ▸ hbatch⟩

end Store

end OrderStore
