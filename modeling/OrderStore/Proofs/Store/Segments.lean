import OrderStore.Proofs.Buffer.Landings
import OrderStore.Proofs.Optimistic.Alone
import OrderStore.Proofs.Segmented.Recycle
import OrderStore.Store.Call

/-!
# Every store as a list of segments

A store shows its readers a list of segments, each a region with an offset of
its own; a store with a single cursor is one segment at offset zero. A call that
writes chooses one segment and appends to it. Only the choice tells the strategies
apart: given the segment, all of them write and answer alike.
-/

namespace OrderStore

/-- The orders that a call hands over to be written. -/
def Call.orders : Call → List Order
  | append order => [order]
  | appendAll orders => orders
  | appendRing order => [order]
  | _ => []

namespace Segment

/-- The segment with orders appended, emptied before that if it is full. -/
def receive (segment : Segment) (orders : List Order) : Segment :=
  { segment with region := (segment.region.makeRoom.pushAll orders).2 }

/-- The segment emptied and its bytes zeroed. -/
def clear (segment : Segment) : Segment := { segment with region := segment.region.clear }

/-- The segment emptied, its bytes left as they are. -/
def rewind (segment : Segment) : Segment := { segment with region := segment.region.rewind }

/-- The offsets between which a segment lies. -/
def span (segment : Segment) : Nat × Nat := (segment.start, segment.start + segment.size)

theorem span_receive (segment : Segment) (orders : List Order) :
    (segment.receive orders).span = segment.span := by
  simp [span, receive, size]

/-- Which of the orders a segment takes, each with the offset that it lands on. -/
def landings (segment : Segment) (orders : List Order) : List (Nat × Order) :=
  let region := segment.region.makeRoom
  landingsFrom (segment.start + region.tracker.position) (orders.take region.room)

theorem length_landings (segment : Segment) (orders : List Order) :
    (segment.landings orders).length = min orders.length segment.region.makeRoom.room := by
  rw [landings, length_landingsFrom, List.length_take, Nat.min_comm]

/-- A single order lands at the position, if there is or can be made room. -/
theorem landings_singleton {segment : Segment} (order : Order)
    (hhold : segment.region.canHoldRecord = true) :
    segment.landings [order] =
      [(segment.start + segment.region.makeRoom.tracker.position, order)] := by
  have hroom : segment.region.makeRoom.hasRoom = true := by rw [Region.hasRoom_makeRoom, hhold]
  have htake : [order].take segment.region.makeRoom.room = [order] :=
    List.take_of_length_le (Region.hasRoom_iff_room_pos.mp hroom)
  rw [landings, htake, landingsFrom_cons]
  rfl

theorem map_snd_landings (segment : Segment) (orders : List Order) :
    (segment.landings orders).map Prod.snd = orders.take segment.region.makeRoom.room :=
  map_snd_landingsFrom ..

/-- The order at `offset` of a list of segments: what the first one that owns
the offset holds there. -/
def readIn (segments : List Segment) (offset : Nat) : Option Order :=
  match segments.find? (·.contains offset) with
  | none => none
  | some segment => segment.region.read (offset - segment.start)

/-- Bytes written in a list of segments. -/
def usedIn (segments : List Segment) : Nat :=
  segments.foldr (fun segment total => segment.region.used + total) 0

end Segment

namespace Region

/-- Whether a region with a single cursor takes an order from a call. -/
def admits (r : Region) : Call → Bool
  | .append _ => r.hasRoom
  | .appendAll orders => !orders.isEmpty && r.hasRoom
  | .appendRing _ => r.canHoldRecord
  | _ => false

/-- The segment that a call on a single region writes to. -/
def target? (r : Region) (call : Call) : Option Nat := if r.admits call then some 0 else none

/-- The region after a call that is made on it alone. -/
def after (r : Region) : Call → Region
  | .append order => r.push (encode order)
  | .appendAll orders => (r.pushAll orders).2
  | .appendRing order => r.makeRoom.push (encode order)
  | .reset => r.clear
  | .forceReset => r.rewind
  | _ => r

/-- An overwriting append finds a place wherever an append does. -/
theorem canHoldRecord_of_hasRoom {r : Region} (hroom : r.hasRoom = true) :
    r.canHoldRecord = true := by
  rw [← hasRoom_makeRoom, makeRoom_of_room hroom, hroom]

/-- A region takes orders only if it can make room for one. -/
theorem canHoldRecord_of_admits {r : Region} {call : Call} (h : r.admits call = true) :
    r.canHoldRecord = true := by
  cases call with
  | append order => exact canHoldRecord_of_hasRoom h
  | appendAll orders =>
    obtain ⟨-, hroom⟩ : orders ≠ [] ∧ r.hasRoom = true := by simpa [admits] using h
    exact canHoldRecord_of_hasRoom hroom
  | appendRing order => exact h
  | _ => cases h

@[simp] theorem capacity_after (r : Region) (call : Call) :
    (r.after call).capacity = r.capacity := by
  cases call <;> simp [after]

/-- A call that is admitted makes room and appends its orders. -/
theorem after_of_admits {r : Region} {call : Call} (h : r.admits call = true) :
    r.after call = (r.makeRoom.pushAll call.orders).2 := by
  cases call with
  | append order =>
    have hroom : r.hasRoom = true := h
    rw [after, Call.orders, pushAll_singleton, makeRoom_of_room hroom]
  | appendAll orders =>
    obtain ⟨-, hroom⟩ : orders ≠ [] ∧ r.hasRoom = true := by simpa [admits] using h
    rw [after, Call.orders, makeRoom_of_room hroom]
  | appendRing order => rw [after, Call.orders, pushAll_singleton]
  | _ => simp [admits] at h

/-- A write that is not admitted changes nothing. -/
theorem after_of_refused {r : Region} {call : Call} (h : r.admits call = false)
    (hreset : call ≠ .reset) (hforce : call ≠ .forceReset) : r.after call = r := by
  cases call with
  | append order => exact push_of_full _ h
  | appendAll orders =>
    rcases Bool.and_eq_false_iff.mp h with hempty | hfull
    · obtain rfl : orders = [] := by simpa using hempty
      rfl
    · rw [after, pushAll_of_full _ hfull]
  | appendRing order => exact push_makeRoom_of_small _ h
  | reset => exact absurd rfl hreset
  | forceReset => exact absurd rfl hforce
  | _ => rfl

end Region

/-- The segment that the next call on a segmented buffer writes to. -/
def SegmentedBuffer.target? (b : SegmentedBuffer) : Call → Option Nat
  | .append _ => b.nextWithRoom?
  | .appendAll orders => b.nextForBatch? orders
  | .appendRing _ => b.nextForRing?
  | _ => none

/-- The chosen segment could hold a record. -/
theorem SegmentedBuffer.canHold_of_target? {b : SegmentedBuffer} {call : Call} {index : Nat}
    (h : b.target? call = some index) : b.canHold index = true := by
  have hroom (hroom : b.hasRoom index = true) : b.canHold index = true := by
    obtain ⟨segment, hsegment, hregion⟩ := hasRoom_eq_true_iff.mp hroom
    exact canHold_eq_true_iff.mpr ⟨segment, hsegment, Region.canHoldRecord_of_hasRoom hregion⟩
  cases call with
  | append order => exact hroom (hasRoom_of_roomFrom? h)
  | appendAll orders => exact hroom (hasRoom_of_nextForBatch? h)
  | appendRing order =>
    simp only [target?, nextForRing?] at h
    cases hnext : b.nextWithRoom? with
    | some next =>
      rw [hnext] at h
      obtain rfl := Option.some.inj h
      exact hroom (hasRoom_of_roomFrom? hnext)
    | none =>
      rw [hnext] at h
      exact canHold_of_seekVictim h
  | _ => cases h

/-- A batch goes to the only segment if that has room. -/
theorem SegmentedBuffer.segmentForBatch?_of_singleton {b : SegmentedBuffer} {segment : Segment}
    {required : Nat} (hsegments : b.segments = #[segment]) (hrequired : recordSize ≤ required) :
    b.segmentForBatch? required = if segment.region.hasRoom then some 0 else none := by
  have hroom : segment.region.hasRoom = true ↔ recordSize ≤ segment.region.tracker.remaining := by
    have := recordSize_pos
    rw [Region.hasRoom_iff, Region.capacity, Tracker.remaining]
    omega
  have hbest : roomiest none 0 b.segments.toList =
      if 0 < segment.region.tracker.remaining then some (0, segment.region.tracker.remaining)
      else none := by
    rw [hsegments]
    rfl
  have hfirst : b.segments.findIdx? (required ≤ ·.region.tracker.remaining) =
      if required ≤ segment.region.tracker.remaining then some 0 else none := by
    rw [hsegments]
    simp
  unfold segmentForBatch?
  rw [hfirst, hbest]
  by_cases hall : required ≤ segment.region.tracker.remaining
  · rw [if_pos hall, if_pos (hroom.mpr (by omega))]
  · rw [if_neg hall]
    have := recordSize_pos
    by_cases hone : recordSize ≤ segment.region.tracker.remaining
    · rw [if_pos (by omega), if_pos (hroom.mpr hone)]
      exact if_pos hone
    · rw [if_neg (mt hroom.mp hone)]
      by_cases hany : 0 < segment.region.tracker.remaining
      · rw [if_pos hany]
        exact if_neg hone
      · rw [if_neg hany]

/-- With one segment there is nothing to choose from. -/
theorem SegmentedBuffer.target?_of_singleton {b : SegmentedBuffer} {start : Nat} {r : Region}
    (h : b.segments.toList = [⟨start, r⟩]) (call : Call) : b.target? call = r.target? call := by
  have hsegments : b.segments = #[⟨start, r⟩] := Array.toList_inj.mp h
  have hsize : b.segments.size = 1 := by rw [hsegments]; rfl
  have hroom : b.hasRoom 0 = r.hasRoom := by rw [hasRoom, hsegments]; rfl
  have hhold : b.canHold 0 = r.canHoldRecord := by rw [canHold, hsegments]; rfl
  have hnext : b.nextWithRoom? = if r.hasRoom then some 0 else none := by
    rw [nextWithRoom?, wrapIndex, hsize, Nat.mod_one, roomFrom?, hroom]
  cases call with
  | append order => exact hnext
  | appendAll orders =>
    rw [target?, nextForBatch?, Region.target?, Region.admits]
    cases orders with
    | nil => rfl
    | cons order orders =>
      exact segmentForBatch?_of_singleton hsegments (Nat.le_mul_of_pos_left _ (Nat.succ_pos _))
  | appendRing order =>
    rw [target?, nextForRing?, hnext, hsize, seekVictim, wrapIndex, hsize, Nat.mod_one, hhold,
      Region.target?, Region.admits]
    cases hroom : r.hasRoom with
    | true => rw [Region.canHoldRecord_of_hasRoom hroom]; rfl
    | false => cases r.canHoldRecord <;> rfl
  | _ => rfl

namespace Store

/-- The segments of a store in the order of their offsets. -/
def segments : Store → List Segment
  | exclusive region => [⟨0, region⟩]
  | optimistic buffer => [⟨0, buffer.region⟩]
  | readWrite region => [⟨0, region⟩]
  | segmented buffer => buffer.segments.toList

/-- The segment that the next call writes to, if it writes anything. -/
def target? : Store → Call → Option Nat
  | exclusive region, call => region.target? call
  | optimistic buffer, call => buffer.region.target? call
  | readWrite region, call => region.target? call
  | segmented buffer, call => buffer.target? call

/-- With one segment there is nothing to choose from. -/
theorem target?_of_singleton {s : Store} {start : Nat} {r : Region}
    (h : s.segments = [⟨start, r⟩]) (call : Call) : s.target? call = r.target? call := by
  cases s with
  | segmented b => exact SegmentedBuffer.target?_of_singleton h call
  | _ =>
    obtain ⟨-, rfl⟩ := Segment.mk.inj (List.singleton_inj.mp h)
    rfl

/-- The chosen segment can make room for a record. -/
theorem canHoldRecord_of_target? {s : Store} {call : Call} {index : Nat}
    (h : s.target? call = some index) :
    ∃ segment, s.segments[index]? = some segment ∧ segment.region.canHoldRecord = true := by
  have hcursor {r : Region} (htarget : r.target? call = some index) :
      ∃ segment, [(⟨0, r⟩ : Segment)][index]? = some segment ∧
        segment.region.canHoldRecord = true := by
    unfold Region.target? at htarget
    split at htarget
    · next hadmits =>
      obtain rfl := Option.some.inj htarget
      exact ⟨⟨0, r⟩, rfl, Region.canHoldRecord_of_admits hadmits⟩
    · cases htarget
  cases s with
  | exclusive region => exact hcursor h
  | optimistic buffer => exact hcursor h
  | readWrite region => exact hcursor h
  | segmented buffer =>
    obtain ⟨segment, hsegment, hhold⟩ := SegmentedBuffer.canHold_eq_true_iff.mp
      (SegmentedBuffer.canHold_of_target? h)
    exact ⟨segment, by rw [segments, Array.getElem?_toList, hsegment], hhold⟩

/-- The orders that the next call writes, each with the offset it lands on. -/
def landings (s : Store) (call : Call) : List (Nat × Order) :=
  match (s.target? call).bind (s.segments[·]?) with
  | none => []
  | some segment => segment.landings call.orders

/-- The segments after the orders of the next call are written. -/
def segmentsAfterWrite (s : Store) (call : Call) : List Segment :=
  match s.target? call with
  | none => s.segments
  | some index => s.segments.modify index (·.receive call.orders)

/-- The segments after the next call. -/
def nextSegments (s : Store) : Call → List Segment
  | .reset => s.segments.map (·.clear)
  | .forceReset => s.segments.map (·.rewind)
  | call => s.segmentsAfterWrite call

theorem nextSegments_of_write (s : Store) {call : Call} (hreset : call ≠ .reset)
    (hforce : call ≠ .forceReset) : s.nextSegments call = s.segmentsAfterWrite call := by
  cases call with
  | reset => exact absurd rfl hreset
  | forceReset => exact absurd rfl hforce
  | _ => rfl

/-- What a change of one segment makes of each: the others stay as they are. -/
theorem exists_of_mem_modify {segments : List Segment} {target : Nat} {change : Segment → Segment}
    {segment : Segment} (h : segment ∈ segments.modify target change) :
    ∃ index before, segments[index]? = some before ∧
      (target = index ∧ segment = change before ∨ target ≠ index ∧ segment = before) := by
  obtain ⟨index, hindex⟩ := List.mem_iff_getElem?.mp h
  rw [List.getElem?_modify] at hindex
  obtain ⟨before, hbefore, rfl⟩ := Option.map_eq_some_iff.mp hindex
  refine ⟨index, before, hbefore, ?_⟩
  by_cases heq : target = index
  · exact Or.inl ⟨heq, by rw [if_pos heq]⟩
  · exact Or.inr ⟨heq, by rw [if_neg heq]⟩

/-- The changed segment is one of the list. -/
theorem mem_modify {segments : List Segment} {index : Nat} {segment : Segment}
    (h : segments[index]? = some segment) (change : Segment → Segment) :
    change segment ∈ segments.modify index change := by
  apply List.mem_of_getElem? (i := index)
  rw [List.getElem?_modify_eq, h, Option.map_eq_map, Option.map_some]

/-- What a write makes of each segment: the chosen one receives the orders, the
others stay as they are. -/
theorem exists_of_mem_segmentsAfterWrite {s : Store} {call : Call} {segment : Segment}
    (h : segment ∈ s.segmentsAfterWrite call) :
    ∃ index before, s.segments[index]? = some before ∧
      (s.target? call = some index ∧ segment = before.receive call.orders ∨
        s.target? call ≠ some index ∧ segment = before) := by
  unfold segmentsAfterWrite at h
  cases htarget : s.target? call with
  | none =>
    rw [htarget] at h
    obtain ⟨index, hindex⟩ := List.mem_iff_getElem?.mp h
    exact ⟨index, segment, hindex, Or.inr ⟨nofun, rfl⟩⟩
  | some target =>
    rw [htarget] at h
    obtain ⟨index, before, hbefore, hcases⟩ := exists_of_mem_modify h
    simp only [Option.some.injEq, ne_eq]
    exact ⟨index, before, hbefore, hcases⟩

/-- What becomes of each segment: a reset empties them all, and a write changes
the chosen one. -/
theorem exists_of_mem_nextSegments {s : Store} {call : Call} {segment : Segment}
    (h : segment ∈ s.nextSegments call) :
    ∃ index before, s.segments[index]? = some before ∧
      (s.target? call = none ∧ (segment = before.clear ∨ segment = before.rewind) ∨
        s.target? call = some index ∧ segment = before.receive call.orders ∨
        s.target? call ≠ some index ∧ segment = before) := by
  cases call with
  | reset =>
    obtain ⟨before, hbefore, rfl⟩ := List.mem_map.mp h
    obtain ⟨index, hindex⟩ := List.mem_iff_getElem?.mp hbefore
    exact ⟨index, before, hindex, Or.inl ⟨by cases s <;> rfl, Or.inl rfl⟩⟩
  | forceReset =>
    obtain ⟨before, hbefore, rfl⟩ := List.mem_map.mp h
    obtain ⟨index, hindex⟩ := List.mem_iff_getElem?.mp hbefore
    exact ⟨index, before, hindex, Or.inl ⟨by cases s <;> rfl, Or.inr rfl⟩⟩
  | _ =>
    obtain ⟨index, before, hindex, hcases⟩ := exists_of_mem_segmentsAfterWrite h
    exact ⟨index, before, hindex, Or.inr hcases⟩

/-- A change of one segment that leaves it where it is leaves all where they are. -/
theorem map_span_modify (segments : List Segment) (index : Nat) {change : Segment → Segment}
    (hspan : ∀ segment, (change segment).span = segment.span) :
    (segments.modify index change).map Segment.span = segments.map Segment.span := by
  apply List.ext_getElem?
  intro i
  rw [List.getElem?_map, List.getElem?_modify, List.getElem?_map]
  cases segments[i]? with
  | none => rfl
  | some segment =>
    by_cases hi : index = i
    · simp [hi, hspan segment]
    · simp [hi]

/-- The segments stay where they are. -/
theorem map_span_nextSegments (s : Store) (call : Call) :
    (s.nextSegments call).map Segment.span = s.segments.map Segment.span := by
  have hwrite : (s.segmentsAfterWrite call).map Segment.span = s.segments.map Segment.span := by
    unfold segmentsAfterWrite
    cases s.target? call with
    | none => rfl
    | some index => exact map_span_modify _ index fun segment => segment.span_receive call.orders
  cases call with
  | reset => exact List.map_map
  | forceReset => exact List.map_map
  | _ => exact hwrite

/-! ## Stores with a single cursor -/

/-- The store has a single cursor, which is that of region `r`. -/
structure Cursor (s : Store) (r : Region) : Prop where
  /-- The region is the only segment. -/
  segments_eq : s.segments = [⟨0, r⟩]
  /-- The store is as large as the region. -/
  capacity_eq : s.capacity = r.capacity

namespace Cursor

variable {s : Store} {r : Region}

theorem exclusive (r : Region) : Cursor (.exclusive r) r := ⟨rfl, rfl⟩

theorem optimistic (b : OptimisticBuffer) : Cursor (.optimistic b) b.region := ⟨rfl, rfl⟩

theorem readWrite (r : Region) : Cursor (.readWrite r) r := ⟨rfl, rfl⟩

/-- A call writes to the only segment if the region admits it. -/
theorem target?_eq (h : s.Cursor r) (call : Call) : s.target? call = r.target? call :=
  target?_of_singleton h.segments_eq call

theorem isSome_target? (h : s.Cursor r) (call : Call) :
    (s.target? call).isSome = r.admits call := by
  rw [h.target?_eq, Region.target?]
  cases r.admits call <;> rfl

/-- A batch writes as many orders as its region takes. -/
theorem length_landings_appendAll (h : s.Cursor r) (orders : List Order) :
    (s.landings (.appendAll orders)).length = (r.pushAll orders).1 := by
  rw [landings, h.target?_eq, h.segments_eq, Region.target?, Region.pushAll_fst]
  cases hadmits : r.admits (.appendAll orders) with
  | true =>
    obtain ⟨-, hroom⟩ : orders ≠ [] ∧ r.hasRoom = true := by simpa [Region.admits] using hadmits
    rw [if_pos rfl]
    change (Segment.landings ⟨0, r⟩ orders).length = _
    rw [Segment.length_landings, Region.makeRoom_of_room hroom]
  | false =>
    rw [if_neg Bool.false_ne_true]
    have hnone : orders = [] ∨ r.room = 0 := by
      rcases Bool.and_eq_false_iff.mp hadmits with hempty | hfull
      · exact Or.inl (by simpa using hempty)
      · right
        have : ¬ 0 < r.room := by simp [← Region.hasRoom_iff_room_pos, hfull]
        omega
    rcases hnone with rfl | hzero
    · simp
    · simp [hzero]

/-- What a call does to the only segment is what it does to the region. -/
theorem nextSegments_eq (h : s.Cursor r) (call : Call) :
    s.nextSegments call = [⟨0, r.after call⟩] := by
  have hwrite (hreset : call ≠ .reset) (hforce : call ≠ .forceReset) :
      s.segmentsAfterWrite call = [⟨0, r.after call⟩] := by
    rw [segmentsAfterWrite, h.target?_eq, h.segments_eq, Region.target?]
    cases hadmits : r.admits call with
    | true => rw [if_pos rfl, Region.after_of_admits hadmits]; rfl
    | false => rw [if_neg Bool.false_ne_true, Region.after_of_refused hadmits hreset hforce]
  cases call with
  | reset => rw [nextSegments, h.segments_eq]; rfl
  | forceReset => rw [nextSegments, h.segments_eq]; rfl
  | _ => exact hwrite nofun nofun

end Cursor

/-- A store is segmented, or it has a single cursor. -/
theorem cases_strategy (s : Store) :
    (∃ b, s = segmented b) ∨ s.strategy ≠ .segmented ∧ ∃ r, s.Cursor r := by
  cases s with
  | exclusive r => exact Or.inr ⟨Strategy.noConfusion, r, Cursor.exclusive r⟩
  | optimistic b => exact Or.inr ⟨Strategy.noConfusion, b.region, Cursor.optimistic b⟩
  | readWrite r => exact Or.inr ⟨Strategy.noConfusion, r, Cursor.readWrite r⟩
  | segmented b => exact Or.inl ⟨b, rfl⟩

/-- A call that does not overwrite chooses a segment with room. -/
theorem hasRoom_of_target? {s : Store} {call : Call} {index : Nat}
    (hcall : ∀ order, call ≠ .appendRing order) (h : s.target? call = some index) :
    ∃ segment, s.segments[index]? = some segment ∧ segment.region.hasRoom = true := by
  rcases s.cases_strategy with ⟨b, rfl⟩ | ⟨-, r, hr⟩
  · have hroom : b.hasRoom index = true := by
      cases call with
      | append order => exact SegmentedBuffer.hasRoom_of_roomFrom? h
      | appendAll orders => exact SegmentedBuffer.hasRoom_of_nextForBatch? h
      | appendRing order => exact absurd rfl (hcall order)
      | _ => cases h
    obtain ⟨segment, hsegment, hregion⟩ := SegmentedBuffer.hasRoom_eq_true_iff.mp hroom
    exact ⟨segment, by rw [segments, Array.getElem?_toList, hsegment], hregion⟩
  · rw [hr.target?_eq, Region.target?] at h
    split at h
    · next hadmits =>
      obtain rfl := Option.some.inj h
      refine ⟨⟨0, r⟩, by rw [hr.segments_eq]; rfl, ?_⟩
      cases call with
      | append order => exact hadmits
      | appendAll orders => exact (Bool.and_eq_true_iff.mp hadmits).2
      | appendRing order => exact absurd rfl (hcall order)
      | _ => cases hadmits
    · cases h

end Store

end OrderStore
