import OrderStore.Proofs.Store.Overwriting
import OrderStore.Proofs.Store.Reset

/-!
# What an overwriting write may lose

A store that could hold a record at all takes every overwriting write. While there
is room the write loses nothing; in a full store it loses what one region held, the
one that it starts again, and nothing else. The only way to fail is to look for a
segment that could hold a record and to miss it, which takes a recycling cursor that
wraps in a store some of whose segments are too small.
-/

namespace OrderStore

namespace Segment

variable {segments : List Segment} {segment : Segment} {index : Nat}

/-- Segment `index` could hold a record if it were empty. -/
def HoldsAt (segments : List Segment) (index : Nat) : Prop :=
  ∃ segment, segments[index]? = some segment ∧ segment.region.canHoldRecord = true

/-- Where the segments lie says which of them could hold a record. -/
theorem HoldsAt.of_span {others : List Segment} (h : HoldsAt segments index)
    (hspan : others.map span = segments.map span) : HoldsAt others index := by
  obtain ⟨segment, hsegment, hhold⟩ := h
  have hget : (others.map span)[index]? = some segment.span := by
    rw [hspan, List.getElem?_map, hsegment]
    rfl
  rw [List.getElem?_map] at hget
  obtain ⟨other, hother, heq⟩ := Option.map_eq_some_iff.mp hget
  obtain ⟨hstart, hend⟩ := Prod.mk.inj heq
  refine ⟨other, hother, ?_⟩
  rw [Region.canHoldRecord_iff] at hhold ⊢
  unfold size at hend
  omega

end Segment

/-- A region that makes room for an order shows it behind what is left. -/
theorem Region.Represents.read_makeRoom_pushAll {r : Region} {orders : List Order}
    (h : r.Represents orders) (hhold : r.canHoldRecord = true) (order : Order) {offset : Nat}
    (hne : offset ≠ r.makeRoom.tracker.position) :
    (r.makeRoom.pushAll [order]).2.read offset = r.makeRoom.read offset := by
  have hroom : r.makeRoom.hasRoom = true := by rw [hasRoom_makeRoom, hhold]
  have htake : [order].take r.makeRoom.room = [order] :=
    List.take_of_length_le (hasRoom_iff_room_pos.mp hroom)
  have hpushed := h.makeRoom.pushAll [order]
  rw [htake] at hpushed
  refine h.makeRoom.read_of_append hpushed fun i hi => ?_
  obtain rfl : i = 0 := Nat.lt_one_iff.mp hi
  rwa [Nat.zero_mul, Nat.add_zero]

namespace SegmentedBuffer

/-- The search looks at no more segments than it may. -/
theorem seekLength_le (b : SegmentedBuffer) (tries : Nat) (cursor : UInt64) :
    b.seekLength tries cursor ≤ tries := by
  induction tries generalizing cursor with
  | zero => exact Nat.le_refl 0
  | succ tries ih =>
    have hrest := ih (cursor + 1)
    unfold seekLength
    split <;> omega

/-- Wherever the cursor points, the search stops at once if all segments could hold a
record. -/
theorem seekVictim_of_forall {b : SegmentedBuffer} (hpos : 0 < b.segments.size)
    (hall : ∀ index < b.segments.size, b.canHold index = true) (cursor : UInt64) :
    (b.seekVictim b.segments.size cursor).1 = some (b.wrapIndex cursor.toNat) := by
  obtain ⟨tries, hsize⟩ := Nat.exists_eq_add_one.mpr hpos
  have hfirst : b.canHold (b.wrapIndex cursor.toNat) = true := hall _ (Nat.mod_lt _ hpos)
  rw [hsize, seekVictim, if_pos hfirst]

/-- A cursor that does not wrap in one round meets every segment, so also one that
could hold a record. -/
theorem isSome_seekVictim_of_canHold {b : SegmentedBuffer} {index : Nat}
    (hhold : b.canHold index = true) {cursor : UInt64}
    (hwrap : cursor.toNat + b.segments.size ≤ 2 ^ 64) :
    (b.seekVictim b.segments.size cursor).1.isSome = true := by
  obtain ⟨segment, hsegment, -⟩ := canHold_eq_true_iff.mp hhold
  obtain ⟨hindex, -⟩ := Array.getElem?_eq_some_iff.mp hsegment
  have hlength := b.seekLength_le b.segments.size (.ofNat cursor.toNat)
  have hround : cursor.toNat + b.seekLength b.segments.size (.ofNat cursor.toNat) ≤ 2 ^ 64 := by
    omega
  obtain ⟨-, skipped, hskipped, hcases⟩ := seekVictim_cases hround
  rw [UInt64.ofNat_toNat] at hcases
  rcases hcases with ⟨hsome, -⟩ | ⟨-, hall, -⟩
  · rw [hsome]
    rfl
  · -- the round passes over the segment that could hold a record
    have hpos : 0 < b.segments.size := by omega
    obtain ⟨i, hi, hdistance⟩ :=
      exists_distance (Nat.mod_lt cursor.toNat hpos) hindex
    rw [Nat.mod_add_mod] at hdistance
    have hpassed := hskipped i (by omega)
    rw [wrapIndex, hdistance, hhold] at hpassed
    cases hpassed

end SegmentedBuffer

namespace Store

/-! ## What the write does to the reads -/

/-- Between two states of a store a record came to `place`, where there was none, and
nothing else happened. -/
structure Appended (s s' : Store) (place : Nat) : Prop where
  /-- There was room for a record. -/
  room : 0 < s.remainingRecords
  /-- Nothing is lost at the place. -/
  free : s.read place = none
  /-- Nothing else changes. -/
  others : ∀ offset, offset ≠ place → s'.read offset = s.read offset

/-- Between two states of a store one region started again with a record at `place`,
and nothing else happened. -/
structure Recycled (s s' : Store) (place : Nat) (segment : Segment) : Prop where
  /-- There was no room for a record. -/
  full : s.remainingRecords = 0
  /-- The region is one of the store's. -/
  mem : segment ∈ s.segments
  /-- With a single cursor it is the whole store. -/
  whole : s.strategy ≠ .segmented → segment.start = 0 ∧ segment.size = s.capacity
  /-- The place is its first slot. -/
  place_eq : place = segment.start
  /-- Nothing else is left of it. -/
  emptied : ∀ offset, segment.contains offset = true → offset ≠ place → s'.read offset = none
  /-- Outside of it nothing changes. -/
  others : ∀ offset, segment.contains offset = false → s'.read offset = s.read offset

/-- An overwriting write of the order is successful, the order is read back at one
place, its symbol cut, and no more than one region is lost for it. -/
def TakesRing (s : Store) (order : Order) : Prop :=
  (s.appendRing order).1 = true ∧ ∃ place,
    (s.appendRing order).2.read place =
        some { order with symbol := truncateSymbol order.symbol } ∧
      (s.Appended (s.appendRing order).2 place ∨
        ∃ segment, s.Recycled (s.appendRing order).2 place segment)

namespace Records

variable {s : Store} {log : List (Nat × Order)} {segment : Segment} {offset : Nat}

/-- What an overwriting write does to each read: it puts the order behind what is left
of the segment that it chooses. -/
theorem read_appendRing (h : s.Records log) {order : Order} {index : Nat}
    (htarget : s.target? (.appendRing order) = some index)
    (hsegment : s.segments[index]? = some segment)
    (hhold : segment.region.canHoldRecord = true) :
    let place := segment.start + segment.region.makeRoom.tracker.position
    (s.appendRing order).2.read place = some order.stored ∧
      (∀ offset, segment.contains offset = true → offset ≠ place →
        (s.appendRing order).2.read offset =
          segment.region.makeRoom.read (offset - segment.start)) ∧
      ∀ offset, segment.contains offset = false →
        (s.appendRing order).2.read offset = s.read offset := by
  intro place
  have hmem := List.mem_of_getElem? hsegment
  have hsegments : (s.appendRing order).2.segments = s.segments.modify index (·.receive [order]) :=
    segments_perform_of_target h.atRest.quiet htarget
  have hafter : (s.appendRing order).2.Records (log ++ s.landings (.appendRing order)) :=
    h.perform (.appendRing order)
  have hlandings : s.landings (.appendRing order) = [(place, order)] :=
    (landings_of_target htarget hsegment).trans (Segment.landings_singleton order hhold)
  refine ⟨?_, fun offset hcontains hne => ?_, fun offset houtside => ?_⟩
  · exact h.read_landed (hlandings ▸ List.mem_singleton_self (place, order))
  · have hreceived : segment.receive [order] ∈ (s.appendRing order).2.segments := by
      rw [hsegments]
      exact mem_modify hsegment (·.receive [order])
    have hspan := Segment.contains_of_span (segment.span_receive [order]) offset
    have hbound : segment.start ≤ offset := (of_decide_eq_true hcontains).1
    obtain ⟨orders, horders⟩ := h.atRest.represents segment hmem
    rw [hafter.read_of_contains hreceived (hspan.trans hcontains)]
    exact horders.read_makeRoom_pushAll hhold order
      (show offset - segment.start ≠ segment.region.makeRoom.tracker.position by omega)
  · rw [hafter.atRest.read_eq, h.atRest.read_eq, hsegments]
    exact Segment.readIn_modify_of_outside hsegment (segment.span_receive [order]) houtside

/-- While there is room, an overwriting write loses nothing. -/
theorem appended_of_room (h : s.Records log) {capacity : Nat} (hmeasured : s.Measured capacity)
    {order : Order} {index : Nat} (htarget : s.target? (.appendRing order) = some index)
    (hsegment : s.segments[index]? = some segment)
    (hhold : segment.region.canHoldRecord = true) (hroom : 0 < Segment.roomIn s.segments) :
    s.Appended (s.appendRing order).2
      (segment.start + segment.region.makeRoom.tracker.position) := by
  -- the segment is one with room, and making room leaves it as it is
  obtain ⟨hsame, -⟩ := target?_appendRing_of_room order hroom
  obtain ⟨chosen, hchosen, hregion⟩ :=
    hasRoom_of_target? (fun _ h => Call.noConfusion h) (hsame.symm.trans htarget)
  obtain rfl := Option.some.inj (hsegment.symm.trans hchosen)
  have hsegments : (s.appendRing order).2.segments = s.segments.modify index (·.receive [order]) :=
    segments_perform_of_target h.atRest.quiet htarget
  have hlanding := Segment.landings_singleton order hhold
  rw [Region.makeRoom_of_room hregion] at hlanding ⊢
  have hmem : (segment.start + segment.region.tracker.position, order) ∈
      segment.landings [order] := by
    rw [hlanding]
    exact List.mem_singleton_self _
  refine ⟨by rwa [hmeasured.remainingRecords_eq],
    h.read_eq_none_of_mem_landings hsegment hregion hmem, fun offset hne => ?_⟩
  refine h.read_receive_of_ne (h.atRest.quiet.perform (.appendRing order)) hsegment hregion hsegments
    fun landing hother => ?_
  rw [hlanding, List.mem_singleton] at hother
  rw [hother]
  exact hne.symm

/-- In a full store, an overwriting write loses what was in one segment. -/
theorem recycled_of_full (h : s.Records log) {capacity : Nat} (hmeasured : s.Measured capacity)
    {order : Order} {index : Nat} (htarget : s.target? (.appendRing order) = some index)
    (hsegment : s.segments[index]? = some segment)
    (hhold : segment.region.canHoldRecord = true) (hfull : Segment.roomIn s.segments = 0) :
    s.Recycled (s.appendRing order).2
      (segment.start + segment.region.makeRoom.tracker.position) segment := by
  have hmem := List.mem_of_getElem? hsegment
  obtain ⟨-, hinside, houtside⟩ := h.read_appendRing htarget hsegment hhold
  rw [Region.makeRoom_of_full (Segment.hasRoom_of_full hfull hsegment) hhold] at hinside ⊢
  refine ⟨by rwa [hmeasured.remainingRecords_eq], hmem, fun hstrategy => ?_, rfl, ?_, houtside⟩
  · rcases s.cases_strategy with ⟨b, rfl⟩ | ⟨-, r, hr⟩
    · exact absurd rfl hstrategy
    · rw [hr.segments_eq, List.mem_singleton] at hmem
      rw [hmem, hr.capacity_eq]
      exact ⟨rfl, rfl⟩
  · intro offset hcontains hne
    obtain ⟨orders, horders⟩ := h.atRest.represents segment hmem
    rw [hinside offset hcontains hne, horders.rewind.read]
    simp

/-- An overwriting write that finds a segment takes the order and loses no more than
that segment. -/
theorem takesRing (h : s.Records log) {capacity : Nat} (hmeasured : s.Measured capacity)
    {order : Order} (htarget : (s.target? (.appendRing order)).isSome = true) :
    s.TakesRing order := by
  have hwritten : (s.appendRing order).1 = true :=
    (appendRing_fst h.atRest.quiet order).trans htarget
  obtain ⟨index, hindex⟩ := Option.isSome_iff_exists.mp htarget
  obtain ⟨segment, hsegment, hhold⟩ := canHoldRecord_of_target? hindex
  obtain ⟨horder, -, -⟩ := h.read_appendRing hindex hsegment hhold
  refine ⟨hwritten, _, horder, ?_⟩
  rcases Nat.eq_zero_or_pos (Segment.roomIn s.segments) with hfull | hroom
  · exact Or.inr ⟨segment, h.recycled_of_full hmeasured hindex hsegment hhold hfull⟩
  · exact Or.inl (h.appended_of_room hmeasured hindex hsegment hhold hroom)

end Records

/-! ## Finding a segment -/

/-- An overwriting write finds a segment if all of them could hold a record, or if one
could and the recycling cursor does not wrap in one round. -/
theorem isSome_target?_appendRing {s : Store} (order : Order) {index : Nat}
    (hhold : Segment.HoldsAt s.segments index)
    (hround : s.strategy = .segmented →
      (∀ i < s.segments.length, Segment.HoldsAt s.segments i) ∨
        s.counters.2.toNat + s.segments.length ≤ 2 ^ 64) :
    (s.target? (.appendRing order)).isSome = true := by
  rcases s.cases_strategy with ⟨b, rfl⟩ | ⟨-, r, hr⟩
  · have hholds {i : Nat} (h : Segment.HoldsAt b.segments.toList i) : b.canHold i = true := by
      obtain ⟨segment, hsegment, hregion⟩ := h
      rw [Array.getElem?_toList] at hsegment
      exact SegmentedBuffer.canHold_eq_true_iff.mpr ⟨segment, hsegment, hregion⟩
    have hpos : 0 < b.segments.size := by
      obtain ⟨segment, hsegment, -⟩ := hhold
      obtain ⟨hindex, -⟩ := List.getElem?_eq_some_iff.mp hsegment
      exact Nat.zero_lt_of_lt hindex
    have hvictim : (b.seekVictim b.segments.size b.recycleCursor).1.isSome = true := by
      rcases hround rfl with hall | hwrap
      · rw [SegmentedBuffer.seekVictim_of_forall hpos fun i hi => hholds (hall i hi)]
        rfl
      · exact SegmentedBuffer.isSome_seekVictim_of_canHold (hholds hhold) hwrap
    change b.nextForRing?.isSome = true
    unfold SegmentedBuffer.nextForRing?
    cases b.nextWithRoom? with
    | some next => rfl
    | none => exact hvictim
  · obtain ⟨segment, hsegment, hregion⟩ := hhold
    have hmem := List.mem_of_getElem? hsegment
    rw [hr.segments_eq, List.mem_singleton] at hmem
    rw [hr.isSome_target?, Region.admits]
    rwa [hmem] at hregion

theorem counters_withCounters_of_segmented {s : Store} (hstrategy : s.strategy = .segmented)
    (counters : UInt64 × UInt64) : (s.withCounters counters).counters = counters := by
  cases s with
  | segmented b => rfl
  | _ => cases hstrategy

/-- A store that was new takes an overwriting write, whatever happened since and
whatever its counters are, if its segments could hold a record. -/
theorem IsNew.takesRing {s : Store} (hnew : s.IsNew) (calls : List Call)
    (counters : UInt64 × UInt64) (order : Order) {index : Nat}
    (hhold : Segment.HoldsAt s.segments index)
    (hround : s.strategy = .segmented →
      (∀ i < s.segments.length, Segment.HoldsAt s.segments i) ∨
        counters.2.toNat + s.segments.length ≤ 2 ^ 64) :
    ((s.after calls).withCounters counters).TakesRing order := by
  have hsegments := (s.after calls).segments_withCounters counters
  have hspan : ((s.after calls).withCounters counters).segments.map Segment.span =
      s.segments.map Segment.span := by
    rw [hsegments, map_span_after hnew.atRest.quiet]
  have hlength := congrArg List.length hspan
  rw [List.length_map, List.length_map] at hlength
  have hrecords := hnew.records.after calls
  have hmeasured := hnew.measured.after calls
  have hrest : ((s.after calls).withCounters counters).AtRest :=
    ⟨hrecords.atRest.quiet.withCounters counters, hsegments ▸ hrecords.atRest.represents⟩
  refine Records.takesRing ⟨hrest, hsegments ▸ hrecords.apart, hsegments ▸ hrecords.shows⟩
    ⟨hrest, (capacity_withCounters ..).trans hmeasured.capacity_eq, hsegments ▸ hmeasured.divide⟩
    (isSome_target?_appendRing order (hhold.of_span hspan) fun hstrategy => ?_)
  rw [hlength, counters_withCounters_of_segmented (by rwa [strategy_withCounters] at hstrategy)]
  rw [strategy_withCounters, strategy_after] at hstrategy
  exact (hround hstrategy).imp_left fun hall i hi => (hall i hi).of_span hspan

/-- In a valid configuration every segment could hold a record. -/
theorem holdsAt_of_build {strategy : Strategy} {config : StoreConfig} {s : Store}
    (hbuild : build strategy config = .ok s) {index : Nat} (hindex : index < s.segments.length) :
    Segment.HoldsAt s.segments index := by
  obtain ⟨hvalid, rfl⟩ := build_eq_ok_iff.mp hbuild
  obtain ⟨hcapacity, -, hshare, -⟩ := StoreConfig.validate_eq_ok_iff.mp hvalid
  have hget := List.getElem?_eq_getElem hindex
  refine ⟨_, hget, ?_⟩
  cases strategy with
  | segmented =>
    obtain ⟨-, -, hroom⟩ := SegmentedBuffer.hasRoom_new hshare hget
    exact Region.canHoldRecord_of_hasRoom hroom
  | _ =>
    obtain rfl : index = 0 := Nat.lt_one_iff.mp hindex
    exact Region.canHoldRecord_iff.mpr hcapacity

/-- A store that was built takes one overwriting write after the other. -/
theorem answers_appendRing {strategy : Strategy} {config : StoreConfig} {s : Store}
    (hbuild : build strategy config = .ok s) (calls : List Call) (orders : List Order) :
    (s.after calls).answers (orders.map .appendRing) =
      List.replicate orders.length (.flag true) := by
  have hnew := isNew_of_build hbuild
  induction orders generalizing calls with
  | nil => rfl
  | cons order orders ih =>
    have hsame : (s.after calls).withCounters (s.after calls).counters = s.after calls := by
      cases s.after calls <;> rfl
    have htaken : ((s.after calls).withCounters (s.after calls).counters).TakesRing order :=
      hnew.takesRing calls _ order (holdsAt_of_build hbuild hnew.segments_pos) fun _ =>
        Or.inl fun i hi => holdsAt_of_build hbuild hi
    obtain ⟨htrue, -⟩ := hsame ▸ htaken
    have hnext := ih (calls ++ [.appendRing order])
    rw [after_append] at hnext
    calc (s.after calls).answers ((order :: orders).map .appendRing)
        = .flag ((s.after calls).appendRing order).1 ::
            ((s.after calls).after [.appendRing order]).answers (orders.map .appendRing) := rfl
      _ = List.replicate (order :: orders).length (.flag true) := by
          rw [htrue, hnext]
          rfl

/-- If a buffer has the bytes for a record, its last segment could hold one: that has
what the others leave over. -/
theorem holdsAt_last {capacity last : Nat} (hcapacity : recordSize ≤ capacity) :
    Segment.HoldsAt (SegmentedBuffer.new capacity (last + 1)).segments.toList last := by
  let start := last * SegmentedBuffer.segmentSize capacity (last + 1)
  have hget : (SegmentedBuffer.new capacity (last + 1)).segments.toList[last]? =
      some (.new start (capacity - start)) := by
    rw [SegmentedBuffer.getElem?_segments_new, if_pos (Nat.lt_succ_self last), if_pos rfl]
  refine ⟨_, hget, Region.canHoldRecord_iff.mpr ?_⟩
  change recordSize ≤ capacity - last * SegmentedBuffer.segmentSize capacity (last + 1)
  have hshares := SegmentedBuffer.mul_segmentSize_le capacity (last + 1)
  rw [Nat.add_mul, Nat.one_mul] at hshares
  rcases Nat.eq_zero_or_pos (SegmentedBuffer.segmentSlots capacity (last + 1)) with hnone | hsome
  · have hsize : SegmentedBuffer.segmentSize capacity (last + 1) = 0 :=
      Nat.mul_eq_zero.mpr (Or.inl hnone)
    rw [hsize]
    omega
  · have hsize : recordSize ≤ SegmentedBuffer.segmentSize capacity (last + 1) :=
      Nat.le_mul_of_pos_left recordSize hsome
    omega

/-- Every overwriting write on a store that was built is successful and loses no more
than it has to, after any history of calls and with any counters. In a store with room
nothing is lost: the order goes to an offset where nothing was read, and all others
read as before. In a full store it is one region that starts again with the order, and
outside of it all reads are as before. The same holds for a buffer in any number of
segments that has the bytes for one record, as long as its recycling cursor does not
wrap in one round. -/
theorem appendRing_bounded_loss (calls : List Call) (writeCounter recycleCursor : UInt64)
    (order : Order) :
    (∀ strategy config s, build strategy config = .ok s →
      ((s.after calls).withCounters (writeCounter, recycleCursor)).TakesRing order) ∧
    ∀ capacity count b, recordSize ≤ capacity →
      SegmentedBuffer.withSegments capacity count = .ok b →
      recycleCursor.toNat + count ≤ 2 ^ 64 →
      (((segmented b).after calls).withCounters (writeCounter, recycleCursor)).TakesRing order := by
  constructor
  · intro strategy config s hbuild
    have hnew := isNew_of_build hbuild
    exact hnew.takesRing calls _ order (holdsAt_of_build hbuild hnew.segments_pos) fun _ =>
      Or.inl fun i hi => holdsAt_of_build hbuild hi
  · intro capacity count b hcapacity hsegments hwrap
    unfold SegmentedBuffer.withSegments at hsegments
    split at hsegments
    · cases hsegments
    · next hcount =>
      obtain rfl := Except.ok.inj hsegments
      obtain ⟨last, rfl⟩ := Nat.exists_eq_succ_of_ne_zero hcount
      refine (IsNew.segmented capacity last.succ_pos).takesRing calls _ order
        (holdsAt_last hcapacity) fun _ => Or.inr ?_
      rwa [segments, SegmentedBuffer.new, Array.length_toList, Array.size_ofFn]

/-- Both cases in full stores whose counters are about to wrap: two equal segments, and
three of which only the last one could hold a record. -/
theorem appendRing_bounded_loss_wrapping :
    let s := segmented (.new 128 2)
    let b := SegmentedBuffer.new 100 3
    build .segmented { capacity := 128, segmentCount := 2 } = .ok s ∧
      recordSize ≤ 100 ∧ SegmentedBuffer.withSegments 100 3 = .ok b ∧
      (0xFFFFFFFFFFFFFFFD : UInt64).toNat + 3 ≤ 2 ^ 64 ∧
      ((s.after [.append {}, .append {}]).withCounters
        (0xFFFFFFFFFFFFFFFF, 0xFFFFFFFFFFFFFFFF)).TakesRing { id := 3 } ∧
      (((segmented b).after [.append {}]).withCounters
        (0xFFFFFFFFFFFFFFFF, 0xFFFFFFFFFFFFFFFD)).TakesRing { id := 2 } := by
  intro s b
  have hbuild : build .segmented { capacity := 128, segmentCount := 2 } = .ok s := by
    decide +kernel
  have hcapacity : recordSize ≤ 100 := by decide
  have hsegments : SegmentedBuffer.withSegments 100 3 = .ok b := rfl
  have hwrap : (0xFFFFFFFFFFFFFFFD : UInt64).toNat + 3 ≤ 2 ^ 64 := by decide
  exact ⟨hbuild, hcapacity, hsegments, hwrap,
    (appendRing_bounded_loss _ _ _ _).1 .segmented _ s hbuild,
    (appendRing_bounded_loss _ _ _ _).2 100 3 b hcapacity hsegments hwrap⟩

/-- A cursor that wraps on the way points to the first of three segments twice, and
never to the last one. -/
example : ((((segmented (.new 100 3)).after [.append {}]).withCounters
    (0, 0xFFFFFFFFFFFFFFFF)).appendRing { id := 2 }).1 = false := by
  decide +kernel

end Store

end OrderStore
