import OrderStore.Proofs.Segmented.Reachable
import OrderStore.Proofs.Segmented.Turns
import Mathlib.Data.Set.Function
import Mathlib.Order.Interval.Set.Defs

/-!
# Where appends land in turn

Appends on a new segmented buffer go to its segments in turn, like cards that are dealt
round and round. When every segment has as many records as an even share holds, only
the last one has room, and what it still takes lies on the slots that come next. So the
number of an append alone says on which slot it lands, and no slot is left out.
-/

namespace OrderStore

/-! ## Dealing slots -/

namespace RoundRobin

variable {count size total number i : Nat}

/-- Of the first `number` cards that are dealt to `count` hands, how many go to hand
`i`. -/
def dealt (count number i : Nat) : Nat := number / count + if i < number % count then 1 else 0

/-- The hand that card `number` goes to: each in turn until all of them have `size` cards,
and then the last. -/
def turn (count size number : Nat) : Nat :=
  if number < count * size then number % count else count - 1

/-- How many of the first `number` cards hand `i` has. -/
def held (count size number i : Nat) : Nat :=
  dealt count (min number (count * size)) i + if i + 1 = count then number - count * size else 0

/-- Where card `number` lies when the hands lie one behind the other. -/
def slot (count size number : Nat) : Nat :=
  if number < count * size then number % count * size + number / count else number

/-- How many cards hand `i` has in the end, when the last one takes what the others leave. -/
def share (count size total i : Nat) : Nat := if i + 1 = count then total - i * size else size

/-- One more card is dealt to the hand whose turn it is. -/
theorem dealt_succ (number : Nat) (hi : i < count) :
    dealt count (number + 1) i = dealt count number i + if i = number % count then 1 else 0 := by
  unfold dealt
  rcases succ_div_mod_cases (Nat.zero_lt_of_lt hi) number with
    ⟨hlast, hdiv, hmod⟩ | ⟨hless, hdiv, hmod⟩
  · rw [hdiv, hmod]
    split <;> split <;> split <;> omega
  · rw [hdiv, hmod]
    split <;> split <;> split <;> omega

/-- After full rounds all hands have as many cards. -/
theorem dealt_mul (hi : i < count) : dealt count (count * size) i = size := by
  rw [dealt, Nat.mul_div_cancel_left _ (Nat.zero_lt_of_lt hi), Nat.mul_mod_right]
  exact Nat.add_zero size

theorem turn_lt (hcount : 1 ≤ count) : turn count size number < count := by
  unfold turn
  split
  · exact Nat.mod_lt _ hcount
  · omega

theorem held_zero (count size i : Nat) : held count size 0 i = 0 := by
  simp [held, dealt]

theorem held_succ (hi : i < count) :
    held count size (number + 1) i =
      held count size number i + if i = turn count size number then 1 else 0 := by
  unfold held turn
  by_cases hround : number < count * size
  · rw [if_pos hround, Nat.min_eq_left hround, Nat.min_eq_left (Nat.le_of_lt hround),
      dealt_succ number hi]
    split <;> split <;> omega
  · rw [if_neg hround, Nat.min_eq_right (by omega), Nat.min_eq_right (by omega)]
    split <;> split <;> omega

/-- When the rounds are over, every hand but the last has its share. -/
theorem held_of_le (hi : i < count) (hover : count * size ≤ number) :
    held count size number i = size + if i + 1 = count then number - count * size else 0 := by
  rw [held, Nat.min_eq_right hover, dealt_mul hi]

theorem held_turn_of_lt (hround : number < count * size) :
    held count size number (turn count size number) = number / count := by
  have hlast : number - count * size = 0 := by omega
  rw [held, turn, if_pos hround, Nat.min_eq_left (Nat.le_of_lt hround), dealt, hlast,
    if_neg (Nat.lt_irrefl _)]
  split <;> rfl

/-- The hands before the last and a share for that one are all the rounds. -/
theorem pred_mul_add (size : Nat) (hcount : 1 ≤ count) : (count - 1) * size + size = count * size := by
  rw [← Nat.succ_mul]
  congr 1
  omega

/-- The card is laid behind those that the hand has. -/
theorem turn_mul_add_held (hcount : 1 ≤ count) :
    turn count size number * size + held count size number (turn count size number) =
      slot count size number := by
  by_cases hround : number < count * size
  · rw [held_turn_of_lt hround, turn, slot, if_pos hround, if_pos hround]
  · have hlast := pred_mul_add size hcount
    rw [held_of_le (turn_lt hcount) (Nat.not_lt.mp hround), turn, slot, if_neg hround,
      if_neg hround, if_pos (by omega)]
    omega

/-- In the end each hand has its share. -/
theorem held_total (hrounds : count * size ≤ total) (hi : i < count) :
    held count size total i = share count size total i := by
  rw [held_of_le hi hrounds, share]
  split
  · next hlast =>
    have := pred_mul_add size (Nat.one_le_of_lt hi)
    obtain rfl : i = count - 1 := by omega
    omega
  · rfl

/-- While there are cards left, the hand whose turn it is has not got all of its. -/
theorem held_turn_lt (hcount : 1 ≤ count) (hrounds : count * size ≤ total)
    (hnumber : number < total) :
    held count size number (turn count size number) <
      share count size total (turn count size number) := by
  have hlast := pred_mul_add size hcount
  unfold share
  by_cases hround : number < count * size
  · have hless : number / count < size := Nat.div_lt_of_lt_mul hround
    rw [held_turn_of_lt hround]
    split
    · next hturn =>
      have hpred : turn count size number = count - 1 := by omega
      rw [hpred]
      omega
    · exact hless
  · have hturn : turn count size number = count - 1 := if_neg hround
    rw [held_of_le (turn_lt hcount) (Nat.not_lt.mp hround), hturn, if_pos (by omega),
      if_pos (by omega)]
    omega

/-- Going by columns and going by rows undo each other. -/
theorem slot_slot (count size number : Nat) : slot size count (slot count size number) = number := by
  by_cases hround : number < count * size
  · have hcount : 0 < count := Nat.pos_of_mul_pos_right (Nat.zero_lt_of_lt hround)
    have hless : number / count < size := Nat.div_lt_of_lt_mul hround
    have hsize : 0 < size := Nat.zero_lt_of_lt hless
    have hhand := Nat.mul_le_mul_right size (Nat.mod_lt number hcount)
    obtain ⟨hdiv, hmod⟩ : slot count size number / size = number % count ∧
        slot count size number % size = number / count := by
      rw [Nat.div_mod_unique hsize, slot, if_pos hround, Nat.mul_comm size, Nat.add_comm]
      exact ⟨rfl, hless⟩
    have hplace : slot count size number < size * count := by
      rw [slot, if_pos hround, Nat.mul_comm size]
      rw [Nat.succ_mul] at hhand
      omega
    rw [slot, if_pos hplace, hdiv, hmod, Nat.div_add_mod']
  · have hsame : slot count size number = number := if_neg hround
    rw [hsame, slot, if_neg (by rwa [Nat.mul_comm])]

theorem slot_lt (hrounds : count * size ≤ total) (hnumber : number < total) :
    slot count size number < total := by
  unfold slot
  split
  · next hround =>
    have hcount : 0 < count := Nat.pos_of_mul_pos_right (Nat.zero_lt_of_lt hround)
    have hless : number / count < size := Nat.div_lt_of_lt_mul hround
    have hhand := Nat.mul_le_mul_right size (Nat.mod_lt number hcount)
    rw [Nat.succ_mul] at hhand
    omega
  · exact hnumber

/-- No two cards lie on the same slot, and no slot is left empty. -/
theorem bijOn_slot (hrounds : count * size ≤ total) :
    Set.BijOn (slot count size) (Set.Iio total) (Set.Iio total) := by
  have hinv : Set.InvOn (slot size count) (slot count size) (Set.Iio total) (Set.Iio total) :=
    ⟨fun number _ => slot_slot count size number, fun place _ => slot_slot size count place⟩
  exact hinv.bijOn (fun _ => slot_lt hrounds) fun _ => slot_lt (by rwa [Nat.mul_comm])

end RoundRobin

/-- Whether a call writes nothing, or a single order behind others. -/
def Call.appendsAtMost : Call → Bool
  | appendAll _ | appendRing _ | reset | forceReset => false
  | _ => true

namespace SegmentedBuffer

open Store

variable {capacity count number index : Nat} {b : SegmentedBuffer} {segment : Segment}

/-! ## Segments that are filled in turn -/

/-- Where a segment of the buffer lies, and how many slots it has. -/
theorem Reachable.slots_eq (h : b.Reachable capacity count)
    (hsegment : b.segments.toList[index]? = some segment) :
    index < count ∧ segment.start = recordSize * (index * segmentSlots capacity count) ∧
      segment.region.slots =
        RoundRobin.share count (segmentSlots capacity count) (capacity / recordSize) index := by
  obtain ⟨hindex, hstart, hsize⟩ := h.place_eq hsegment
  refine ⟨hindex, ?_, ?_⟩
  · rw [hstart, Nat.mul_comm recordSize, Nat.mul_assoc]
    rfl
  · change segment.region.capacity = _ at hsize
    rw [Region.slots, hsize, RoundRobin.share]
    split
    · exact sub_mul_segmentSize_div ..
    · exact segmentSize_div ..

/-- A buffer to which nothing was written but by `number` appends. -/
structure Dealt (capacity count number : Nat) (b : SegmentedBuffer) : Prop where
  /-- The buffer was new once. -/
  reachable : b.Reachable capacity count
  /-- Every append has taken a number. -/
  counter_eq : b.writeCounter = .ofNat number
  /-- The segments have got their records in turn, as long as there were free slots. -/
  held_eq : ∀ {index : Nat} {segment : Segment}, b.segments.toList[index]? = some segment →
    ∃ orders, segment.region.Represents orders ∧ orders.length =
      RoundRobin.held count (segmentSlots capacity count) (min number (capacity / recordSize)) index

namespace Dealt

theorem new (capacity count : Nat) : Dealt capacity count 0 (.new capacity count) where
  reachable := .new
  counter_eq := rfl
  held_eq := by
    intro index segment hsegment
    rw [getElem?_segments_new] at hsegment
    split at hsegment
    · obtain rfl := Option.some.inj hsegment
      exact ⟨[], .new _, by rw [Nat.zero_min, RoundRobin.held_zero]; rfl⟩
    · cases hsegment

/-- A segment has room while it has not got its share. -/
theorem hasRoom_iff (h : b.Dealt capacity count number)
    (hsegment : b.segments.toList[index]? = some segment) :
    segment.region.hasRoom = true ↔
      RoundRobin.held count (segmentSlots capacity count) (min number (capacity / recordSize))
          index <
        RoundRobin.share count (segmentSlots capacity count) (capacity / recordSize) index := by
  obtain ⟨orders, horders, hlength⟩ := h.held_eq hsegment
  obtain ⟨-, -, hslots⟩ := h.reachable.slots_eq hsegment
  have := horders.length_add_room
  rw [Region.hasRoom_iff_room_pos]
  omega

/-- When there were as many appends as there are slots, no segment has room. -/
theorem nextWithRoom?_of_le (h : b.Dealt capacity count number)
    (hover : capacity / recordSize ≤ number) : b.nextWithRoom? = none := by
  rw [nextWithRoom?_eq_none_iff, forall_hasRoom_eq_false_iff]
  intro segment hsegment
  obtain ⟨index, hindex⟩ := List.mem_iff_getElem?.mp (Array.mem_toList_iff.mpr hsegment)
  obtain ⟨hlt, -, -⟩ := h.reachable.slots_eq hindex
  have hfull := RoundRobin.held_total (mul_segmentSlots_le capacity count) hlt
  rw [Bool.eq_false_iff, ne_eq, h.hasRoom_iff hindex, Nat.min_eq_right hover]
  omega

/-- Before that, the segment whose turn it is takes the next record. -/
theorem nextWithRoom?_of_lt (h : b.Dealt capacity count number) (hcapacity : capacity < 2 ^ 64)
    (hcount : 1 ≤ count) (hnumber : number < capacity / recordSize) :
    b.nextWithRoom? = some (RoundRobin.turn count (segmentSlots capacity count) number) := by
  have hsize := h.reachable.length_segments
  have hmin : min number (capacity / recordSize) = number := by omega
  let turn := RoundRobin.turn count (segmentSlots capacity count) number
  have hturn : turn < b.segments.toList.length := hsize.symm ▸ RoundRobin.turn_lt hcount
  have hget := List.getElem?_eq_getElem hturn
  have hroom : b.hasRoom turn = true := by
    rw [hasRoom_eq_true_iff, ← Array.getElem?_toList]
    refine ⟨_, hget, (h.hasRoom_iff hget).mpr ?_⟩
    rw [hmin]
    exact RoundRobin.held_turn_lt hcount (mul_segmentSlots_le capacity count) hnumber
  by_cases hround : number < count * segmentSlots capacity count
  · have hslots := Nat.div_le_self capacity recordSize
    have hcounter : b.writeCounter.toNat = number := by
      rw [h.counter_eq, UInt64.toNat_ofNat', Nat.mod_eq_of_lt (by omega)]
    have hfirst : b.wrapIndex b.writeCounter.toNat = turn := by
      rw [wrapIndex, hcounter, ← Array.length_toList, hsize]
      exact (if_pos hround).symm
    rw [nextWithRoom?, hfirst, roomFrom?_of_room _ hroom]
  · cases hnext : b.nextWithRoom? with
    | none =>
      rw [nextWithRoom?_eq_none_iff.mp hnext turn] at hroom
      cases hroom
    | some found =>
      -- only the last segment has not got its share
      obtain ⟨segment, hsegment, hregion⟩ := hasRoom_eq_true_iff.mp (hasRoom_of_roomFrom? hnext)
      rw [← Array.getElem?_toList] at hsegment
      obtain ⟨hlt, -, -⟩ := h.reachable.slots_eq hsegment
      have hless := (h.hasRoom_iff hsegment).mp hregion
      rw [hmin, RoundRobin.held_of_le hlt (Nat.not_lt.mp hround), RoundRobin.share] at hless
      have hlast : turn = count - 1 := if_neg hround
      split at hless <;> congr 1 <;> omega

/-- As long as there are free slots, an append lands on the one that its number says. -/
theorem landings_of_lt (h : b.Dealt capacity count number) (hcapacity : capacity < 2 ^ 64)
    (hcount : 1 ≤ count) (hnumber : number < capacity / recordSize) (order : Order) :
    (segmented b).landings (.append order) =
      [(recordSize * RoundRobin.slot count (segmentSlots capacity count) number, order)] := by
  let turn := RoundRobin.turn count (segmentSlots capacity count) number
  have htarget : (segmented b).target? (.append order) = some turn :=
    h.nextWithRoom?_of_lt hcapacity hcount hnumber
  obtain ⟨segment, hsegment, hroom⟩ := hasRoom_of_target? (fun _ => Call.noConfusion) htarget
  obtain ⟨orders, horders, hlength⟩ := h.held_eq hsegment
  obtain ⟨-, hstart, -⟩ := h.reachable.slots_eq hsegment
  rw [Nat.min_eq_left (Nat.le_of_lt hnumber)] at hlength
  rw [landings_of_target htarget hsegment]
  change segment.landings [order] = _
  rw [Segment.landings_singleton order (Region.canHoldRecord_of_hasRoom hroom),
    Region.makeRoom_of_room hroom, hstart, horders.position_eq, hlength,
    Nat.mul_comm _ recordSize, ← Nat.mul_add, RoundRobin.turn_mul_add_held hcount]

/-- An append is successful as long as there are free slots, and counts as one more. -/
theorem append (h : b.Dealt capacity count number) (hcapacity : capacity < 2 ^ 64)
    (hcount : 1 ≤ count) (order : Order) :
    (b.append order).1 = decide (number < capacity / recordSize) ∧
      (b.append order).2.Dealt capacity count (number + 1) := by
  have hreachable : (b.append order).2.Reachable capacity count :=
    h.reachable.perform (.append order) rfl
  have hcounter : b.writeCounter + 1 = .ofNat (number + 1) := by
    rw [h.counter_eq, UInt64.ofNat_add]
    rfl
  rw [append_eq] at hreachable ⊢
  by_cases hnumber : number < capacity / recordSize
  · have hmin : min (number + 1) (capacity / recordSize) = number + 1 := by omega
    have hnext := h.nextWithRoom?_of_lt hcapacity hcount hnumber
    rw [hnext] at hreachable ⊢
    refine ⟨(decide_eq_true hnumber).symm, hreachable, hcounter, ?_⟩
    intro index segment hsegment
    rw [toList_modifyRegion, List.getElem?_modify] at hsegment
    obtain ⟨before, hbefore, rfl⟩ := Option.map_eq_some_iff.mp hsegment
    obtain ⟨hindex, -, -⟩ := h.reachable.slots_eq hbefore
    obtain ⟨orders, horders, hlength⟩ := h.held_eq hbefore
    rw [Nat.min_eq_left (Nat.le_of_lt hnumber)] at hlength
    rw [hmin, RoundRobin.held_succ hindex]
    by_cases hturn : RoundRobin.turn count (segmentSlots capacity count) number = index
    · have hroom : before.region.hasRoom = true := by
        obtain ⟨segment, hsegment, hroom⟩ := hasRoom_eq_true_iff.mp (hasRoom_of_roomFrom? hnext)
        rw [← Array.getElem?_toList, hturn] at hsegment
        obtain rfl := Option.some.inj (hbefore.symm.trans hsegment)
        exact hroom
      rw [if_pos hturn, if_pos hturn.symm]
      exact ⟨orders ++ [order], horders.push order hroom, by rw [List.length_append, hlength]; rfl⟩
    · rw [if_neg hturn, if_neg (Ne.symm hturn)]
      exact ⟨orders, horders, hlength⟩
  · have hmin : min (number + 1) (capacity / recordSize) = min number (capacity / recordSize) := by
      omega
    rw [h.nextWithRoom?_of_le (Nat.not_lt.mp hnumber)] at hreachable ⊢
    refine ⟨(decide_eq_false hnumber).symm, hreachable, hcounter, ?_⟩
    rw [hmin]
    exact h.held_eq

/-- The appends among some calls are counted on, and other calls that write nothing are
not. -/
theorem after (h : b.Dealt capacity count number) (hcapacity : capacity < 2 ^ 64)
    (hcount : 1 ≤ count) {calls : List Call} (hcalls : ∀ call ∈ calls, call.appendsAtMost = true) :
    ∃ b' : SegmentedBuffer, (segmented b).after calls = segmented b' ∧
      b'.Dealt capacity count (number + (calls.flatMap Call.orders).length) := by
  induction calls generalizing b number with
  | nil => exact ⟨b, rfl, h⟩
  | cons call calls ih =>
    obtain ⟨hcall, hcalls⟩ := List.forall_mem_cons.mp hcalls
    obtain ⟨b', hperform, hdealt⟩ : ∃ b', ((segmented b).perform call).2 = segmented b' ∧
        b'.Dealt capacity count (number + call.orders.length) := by
      cases call with
      | append order => exact ⟨_, rfl, (h.append hcapacity hcount order).2⟩
      | appendAll orders => cases hcall
      | appendRing order => cases hcall
      | reset => cases hcall
      | forceReset => cases hcall
      | _ => exact ⟨b, rfl, h⟩
    obtain ⟨b'', hafter, hdealt'⟩ := ih hdealt hcalls
    refine ⟨b'', ?_, ?_⟩
    · rw [← hafter, ← hperform]
      rfl
    · rwa [List.flatMap_cons, List.length_append, ← Nat.add_assoc]

end Dealt

end SegmentedBuffer

namespace Store

/-- Appends leave every record as it is. -/
theorem Records.read_after_of_isSome {s : Store} {log : List (Nat × Order)} (h : s.Records log)
    {calls : List Call} (hcalls : ∀ call ∈ calls, call.appendsAtMost = true) {offset : Nat}
    (hread : (s.read offset).isSome) : (s.after calls).read offset = s.read offset := by
  induction calls generalizing s log with
  | nil => rfl
  | cons call calls ih =>
    obtain ⟨hcall, hcalls⟩ := List.forall_mem_cons.mp hcalls
    have hsame : (s.perform call).2.read offset = s.read offset := by
      apply h.read_perform_of_isSome _ _ _ hread
      · rintro rfl
        cases hcall
      · rintro rfl
        cases hcall
      · rintro order rfl
        cases hcall
    exact (ih (h.perform call) hcalls (hsame ▸ hread)).trans hsame

/-- Appends to a new segmented buffer are placed in turn. With other calls between them
only if these write nothing, append number `number` is successful just in case there are
more slots than that, and then its order lands on the slot that the number says, where
nothing was before and where it stays. Which slot that is runs through the segments as
long as all have room, and then through what the last one has more than the others, so
that each slot is that of one number. -/
theorem append_lands_in_turn {capacity count : Nat} (hcapacity : capacity < 2 ^ 64)
    (hcount : 1 ≤ count) {before later : List Call}
    (hbefore : ∀ call ∈ before, call.appendsAtMost = true)
    (hlater : ∀ call ∈ later, call.appendsAtMost = true) (order : Order) :
    let s := (segmented (.new capacity count)).after before
    let number := (before.flatMap Call.orders).length
    let slot := RoundRobin.slot count (capacity / count / recordSize)
    let total := capacity / recordSize
    ((s.append order).1 = true ↔ number < total) ∧
      (number < total → s.read (recordSize * slot number) = none ∧
        ((s.append order).2.after later).read (recordSize * slot number) =
          some { order with symbol := truncateSymbol order.symbol }) ∧
      Set.BijOn slot (Set.Iio total) (Set.Iio total) := by
  intro s number slot total
  obtain ⟨b, hb, hdealt⟩ :=
    (SegmentedBuffer.Dealt.new capacity count).after hcapacity hcount hbefore
  rw [Nat.zero_add] at hdealt
  change s = segmented b at hb
  rw [hb]
  refine ⟨?_, fun hnumber => ?_, ?_⟩
  · change (b.append order).1 = true ↔ number < total
    rw [(hdealt.append hcapacity hcount order).1, decide_eq_true_iff]
  · obtain ⟨log, hrecords⟩ := hdealt.reachable.exists_records hcount
    have hlands := hdealt.landings_of_lt hcapacity hcount hnumber order
    have hmem : (recordSize * slot number, order) ∈ (segmented b).landings (.append order) := by
      rw [hlands]
      exact List.mem_singleton_self _
    have hstored := hrecords.read_landed hmem
    refine ⟨hrecords.read_eq_none_of_landed (fun _ => Call.noConfusion) hmem, Eq.trans ?_ hstored⟩
    exact (hrecords.perform (.append order)).read_after_of_isSome hlater (by rw [hstored]; rfl)
  · exact RoundRobin.bijOn_slot (SegmentedBuffer.mul_segmentSlots_le capacity count)

/-- In three segments with three, three and five slots, the tenth append is the first that
finds room in the last segment only. -/
theorem append_lands_in_turn_uneven :
    let before : List Call :=
      .replicate 5 (.append {}) ++ [.read 64, .used] ++ .replicate 4 (.append {})
    let later : List Call := [.append {}, .read 576]
    let s := (segmented (.new 704 3)).after before
    let order : Order := { id := 10, symbol := "TEN" }
    704 < 2 ^ 64 ∧ 1 ≤ 3 ∧ (∀ call ∈ before, call.appendsAtMost = true) ∧
      (∀ call ∈ later, call.appendsAtMost = true) ∧ (s.append order).1 = true ∧
        s.read 576 = none ∧ ((s.append order).2.after later).read 576 =
          some { order with symbol := truncateSymbol order.symbol } := by
  intro before later s order
  have hcapacity : 704 < 2 ^ 64 := by decide
  have hcount : 1 ≤ 3 := by decide
  have hbefore : ∀ call ∈ before, call.appendsAtMost = true := by decide
  have hlater : ∀ call ∈ later, call.appendsAtMost = true := by decide
  obtain ⟨hwritten, hlands, -⟩ := append_lands_in_turn hcapacity hcount hbefore hlater order
  have hnumber : (before.flatMap Call.orders).length < 704 / recordSize := by decide
  have hplace : recordSize * RoundRobin.slot 3 (704 / 3 / recordSize)
      (before.flatMap Call.orders).length = 576 := by decide
  rw [hplace] at hlands
  exact ⟨hcapacity, hcount, hbefore, hlater, hwritten.mpr hnumber, hlands hnumber⟩

end Store

end OrderStore
