import OrderStore.Proofs.Segmented.Layout

/-!
# Segments that are filled in turn

When all segments are full they are emptied one after another, round and round,
and each is filled to its end before the next is emptied. Slots are then written
in the order of their offsets, whatever the segments' sizes: after as many slots
as the turns so far have had, the next turn begins on the slot that comes next in
a buffer in one piece.
-/

namespace OrderStore

/-- Counting on by one either begins a new round or goes on in the same. -/
theorem succ_div_mod_cases {count : Nat} (hcount : 0 < count) (turn : Nat) :
    (turn % count + 1 = count ∧ (turn + 1) / count = turn / count + 1 ∧ (turn + 1) % count = 0) ∨
      (turn % count + 1 < count ∧ (turn + 1) / count = turn / count ∧
        (turn + 1) % count = turn % count + 1) := by
  have hmod := Nat.mod_lt turn hcount
  have hsum := Nat.mod_add_div turn count
  by_cases hlast : turn % count + 1 = count
  · refine Or.inl ⟨hlast, (Nat.div_mod_unique hcount).mpr ⟨?_, hcount⟩⟩
    rw [Nat.mul_add, Nat.mul_one]
    omega
  · exact Or.inr ⟨by omega, (Nat.div_mod_unique hcount).mpr ⟨by omega, by omega⟩⟩

namespace Segment

/-! ## Slots in turn -/

/-- How many slots the first `turn` segments have, counted round and round. -/
def slotsBefore (segments : List Segment) (turn : Nat) : Nat :=
  turn / segments.length * slotsIn segments + slotsIn (segments.take (turn % segments.length))

@[simp] theorem slotsBefore_zero (segments : List Segment) : slotsBefore segments 0 = 0 := by
  simp [slotsBefore, slotsIn]

/-- The slots depend only on where the segments lie. -/
theorem slotsIn_of_span {segments segments' : List Segment}
    (hspan : segments'.map span = segments.map span) : slotsIn segments' = slotsIn segments := by
  rw [slotsIn_eq, slotsIn_eq, hspan]

theorem slotsBefore_of_span {segments segments' : List Segment}
    (hspan : segments'.map span = segments.map span) (turn : Nat) :
    slotsBefore segments' turn = slotsBefore segments turn := by
  have hlength : segments'.length = segments.length := by
    simpa using congrArg List.length hspan
  have htake : (segments'.take (turn % segments.length)).map span =
      (segments.take (turn % segments.length)).map span := by
    rw [List.map_take, List.map_take, hspan]
  rw [slotsBefore, slotsBefore, hlength, slotsIn_of_span hspan, slotsIn_of_span htake]

/-- One more segment adds its slots. -/
theorem slotsIn_take_succ {segments : List Segment} {index : Nat} {segment : Segment}
    (hsegment : segments[index]? = some segment) :
    slotsIn (segments.take (index + 1)) =
      slotsIn (segments.take index) + segment.region.slots := by
  rw [List.take_add_one, hsegment]
  simp [slotsIn]

/-- A segment's slots lie within those of all. -/
theorem slotsIn_take_add_le {segments : List Segment} {index : Nat} {segment : Segment}
    (hsegment : segments[index]? = some segment) :
    slotsIn (segments.take index) + segment.region.slots ≤ slotsIn segments := by
  have hsplit : slotsIn segments =
      slotsIn (segments.take (index + 1)) + slotsIn (segments.drop (index + 1)) := by
    rw [← slotsIn_append, List.take_append_drop]
  rw [hsplit, slotsIn_take_succ hsegment]
  exact Nat.le_add_right ..

/-- A turn adds the slots of its segment. -/
theorem slotsBefore_succ {segments : List Segment} {turn : Nat} {segment : Segment}
    (hsegment : segments[turn % segments.length]? = some segment) :
    slotsBefore segments (turn + 1) = slotsBefore segments turn + segment.region.slots := by
  obtain ⟨hlt, -⟩ := List.getElem?_eq_some_iff.mp hsegment
  have hpos : 0 < segments.length := Nat.zero_lt_of_lt hlt
  have hsucc := slotsIn_take_succ hsegment
  unfold slotsBefore
  rcases succ_div_mod_cases hpos turn with ⟨hlast, hdiv, hmod⟩ | ⟨-, hdiv, hmod⟩
  · -- the round is over
    have hnone : slotsIn [] = 0 := rfl
    rw [hlast, List.take_length] at hsucc
    rw [hdiv, hmod, List.take_zero, Nat.add_mul, Nat.one_mul, hnone, hsucc]
    omega
  · rw [hmod, hdiv, hsucc, Nat.add_assoc]

/-- Segments without slots do not count. -/
theorem slotsBefore_add {segments : List Segment} {turn more : Nat} (hpos : 0 < segments.length)
    (hempty : ∀ i < more, ∀ segment, segments[(turn + i) % segments.length]? = some segment →
      segment.region.slots = 0) :
    slotsBefore segments (turn + more) = slotsBefore segments turn := by
  induction more with
  | zero => rfl
  | succ more ih =>
    have hlt := Nat.mod_lt (turn + more) hpos
    have hsegment := List.getElem?_eq_getElem hlt
    rw [← Nat.add_assoc, slotsBefore_succ hsegment, ih fun i hi => hempty i (by omega),
      hempty more (Nat.lt_succ_self more) _ hsegment, Nat.add_zero]

/-- Where a slot of a segment lies among all slots when the segment has its turn. -/
theorem slotsBefore_add_mod {segments : List Segment} {turn slot : Nat} {segment : Segment}
    (hsegment : segments[turn % segments.length]? = some segment)
    (hslot : slot < segment.region.slots) :
    (slotsBefore segments turn + slot) % slotsIn segments =
      slotsIn (segments.take (turn % segments.length)) + slot := by
  have hle := slotsIn_take_add_le hsegment
  rw [slotsBefore, Nat.add_assoc, Nat.mul_add_mod', Nat.mod_eq_of_lt (by omega)]

/-- Without room no segment has any. -/
theorem hasRoom_of_full {segments : List Segment} {index : Nat} {segment : Segment}
    (hfull : roomIn segments = 0) (hsegment : segments[index]? = some segment) :
    segment.region.hasRoom = false := by
  rw [Bool.eq_false_iff]
  intro hroom
  have := roomIn_pos_iff.mpr ⟨segment, List.mem_of_getElem? hsegment, hroom⟩
  omega

/-! ## Turns -/

/-- The segments have had `turn` turns, in which `written` records were written. -/
structure Turned (segments : List Segment) (turn written : Nat) : Prop where
  /-- What is written and what is still free are the slots of all turns. -/
  written_add_roomIn : written + roomIn segments = slotsBefore segments turn
  /-- Only the segment that had the last turn may have room. -/
  current : ∀ {index : Nat} {segment : Segment}, segments[index]? = some segment →
    segment.region.hasRoom = true → 0 < turn ∧ index = (turn - 1) % segments.length

namespace Turned

variable {segments : List Segment} {turn written index capacity : Nat} {segment : Segment}
  {held : List Order}

/-- When all segments are full for the first time, none has had a turn. -/
theorem of_full (hfull : roomIn segments = 0) : Turned segments 0 0 where
  written_add_roomIn := by rw [hfull, slotsBefore_zero]
  current := by
    intro index segment hsegment hroom
    rw [hasRoom_of_full hfull hsegment] at hroom
    cases hroom

/-- Segments that could not hold a record are passed over. -/
theorem skip (h : Turned segments turn written) (hfull : roomIn segments = 0) {more : Nat}
    (hpos : 0 < segments.length)
    (hempty : ∀ i < more, ∀ segment, segments[(turn + i) % segments.length]? = some segment →
      segment.region.slots = 0) : Turned segments (turn + more) written where
  written_add_roomIn := by rw [slotsBefore_add hpos hempty, h.written_add_roomIn]
  current := by
    intro index segment hsegment hroom
    rw [hasRoom_of_full hfull hsegment] at hroom
    cases hroom

/-- Which slot of all is the next one of a segment with room. -/
theorem slot_eq (h : Turned segments turn written) (hsegment : segments[index]? = some segment)
    (hroom : segment.region.hasRoom = true) (hheld : segment.region.Represents held) {i : Nat}
    (hi : i < segment.region.room) :
    (written + i) % slotsIn segments = slotsIn (segments.take index) + held.length + i := by
  obtain ⟨hturn, rfl⟩ := h.current hsegment hroom
  obtain ⟨last, rfl⟩ : ∃ last, turn = last + 1 := ⟨turn - 1, by omega⟩
  rw [Nat.add_sub_cancel] at hsegment ⊢
  have honly : roomIn segments = segment.region.room :=
    roomIn_eq_of_only hsegment fun j other hother hroom => (h.current hother hroom).2
  have hslots := hheld.length_add_room
  have hwritten : written = slotsBefore segments last + held.length := by
    have := h.written_add_roomIn
    rw [slotsBefore_succ hsegment] at this
    omega
  rw [hwritten, Nat.add_assoc, slotsBefore_add_mod hsegment (by omega), Nat.add_assoc]

/-- Orders that go to a segment with room land on the slots that come next. -/
theorem landings_of_room (h : Turned segments turn written) (hdivide : Divide segments capacity)
    (hsegment : segments[index]? = some segment) (hroom : segment.region.hasRoom = true)
    (hheld : segment.region.Represents held) (orders : List Order) :
    segment.landings orders = (orders.take segment.region.room).mapIdx fun i order =>
      (recordSize * ((written + i) % slotsIn segments), order) := by
  rw [landings, Region.makeRoom_of_room hroom, landingsFrom]
  apply List.ext_getElem?
  intro i
  rw [List.getElem?_mapIdx, List.getElem?_mapIdx]
  cases hget : (orders.take segment.region.room)[i]? with
  | none => rfl
  | some order =>
    obtain ⟨hi, -⟩ := List.getElem?_eq_some_iff.mp hget
    rw [List.length_take] at hi
    rw [Option.map_some, Option.map_some, h.slot_eq hsegment hroom hheld (by omega),
      hdivide.start_eq hsegment, hheld.position_eq, Nat.mul_add, Nat.mul_add,
      Nat.mul_comm held.length, Nat.mul_comm i]

/-- A segment with room that receives orders still has the last turn. -/
theorem receive_of_room (h : Turned segments turn written)
    (hsegment : segments[index]? = some segment) (hroom : segment.region.hasRoom = true)
    (orders : List Order) :
    Turned (segments.modify index (·.receive orders)) turn
      (written + (segment.landings orders).length) where
  written_add_roomIn := by
    have hmodify := roomIn_modify hsegment (·.receive orders)
    have hpush := segment.region.room_pushAll orders
    rw [slotsBefore_of_span (Store.map_span_modify _ _ fun segment => segment.span_receive orders),
      ← h.written_add_roomIn, length_landings, ← Region.pushAll_fst, Region.makeRoom_of_room hroom]
    simp only [receive, Region.makeRoom_of_room hroom] at hmodify ⊢
    omega
  current := by
    intro j other hother hother_room
    rw [List.length_modify]
    rw [List.getElem?_modify] at hother
    obtain ⟨before, hbefore, rfl⟩ := Option.map_eq_some_iff.mp hother
    by_cases heq : index = j
    · exact heq ▸ h.current hsegment hroom
    · rw [if_neg heq] at hother_room
      exact h.current hbefore hother_room

/-- The segment whose turn it is takes an order on the slot that comes next. -/
theorem landings_of_full (h : Turned segments turn written) (hfull : roomIn segments = 0)
    (hdivide : Divide segments capacity)
    (hsegment : segments[turn % segments.length]? = some segment)
    (hhold : segment.region.canHoldRecord = true) (order : Order) :
    segment.landings [order] = [(recordSize * (written % slotsIn segments), order)] := by
  have hwritten : written = slotsBefore segments turn + 0 := by
    have := h.written_add_roomIn
    omega
  rw [landings_singleton order hhold, Region.makeRoom_of_full (hasRoom_of_full hfull hsegment) hhold,
    hwritten, slotsBefore_add_mod hsegment (Region.canHoldRecord_iff_slots_pos.mp hhold),
    hdivide.start_eq hsegment]
  rfl

/-- The segment whose turn it is begins it with an order. -/
theorem receive_of_full (h : Turned segments turn written) (hfull : roomIn segments = 0)
    (hsegment : segments[turn % segments.length]? = some segment)
    (hhold : segment.region.canHoldRecord = true) (hheld : segment.region.Represents held)
    (order : Order) :
    Turned (segments.modify (turn % segments.length) (·.receive [order])) (turn + 1)
      (written + 1) where
  written_add_roomIn := by
    have hsegmentFull := hasRoom_of_full hfull hsegment
    have hslots := Region.canHoldRecord_iff_slots_pos.mp hhold
    have hmodify := roomIn_modify hsegment (·.receive [order])
    have hpush := segment.region.rewind.room_pushAll [order]
    have hempty : segment.region.rewind.room = segment.region.slots := by
      have := hheld.rewind.length_add_room
      rw [List.length_nil, Nat.zero_add] at this
      exact this
    have hbefore : segment.region.room = 0 := Region.room_of_full hsegmentFull
    have hwritten := h.written_add_roomIn
    rw [Region.pushAll_fst, hempty, List.length_singleton, Nat.min_eq_left hslots] at hpush
    rw [slotsBefore_of_span (Store.map_span_modify _ _ fun segment => segment.span_receive [order]),
      slotsBefore_succ hsegment]
    simp only [receive, Region.makeRoom_of_full hsegmentFull hhold] at hmodify ⊢
    omega
  current := by
    intro j other hother hroom
    rw [List.length_modify, Nat.add_sub_cancel]
    refine ⟨Nat.succ_pos turn, ?_⟩
    rw [List.getElem?_modify] at hother
    obtain ⟨before, hbefore, rfl⟩ := Option.map_eq_some_iff.mp hother
    by_cases heq : turn % segments.length = j
    · exact heq.symm
    · rw [if_neg heq, hasRoom_of_full hfull hbefore] at hroom
      cases hroom

end Turned

end Segment

end OrderStore
