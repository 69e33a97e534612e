import OrderStore.Buffer.Region
import OrderStore.Proofs.Buffer.Arena
import OrderStore.Proofs.Record.RoundTrip

/-!
# A region as a list of orders

What a region shows to its readers is the list of the orders below its
position, by increasing offset. Appending adds orders behind that list,
rewinding empties it, and bytes at or above the position are never read, so
records that a rewinding left behind cannot come back.
-/

namespace OrderStore

/-- A record takes at least one byte. -/
theorem recordSize_pos : 0 < recordSize := by decide

namespace Region

/-- The records below the position of a region are those of a list of orders. -/
structure Represents (r : Region) (orders : List Order) : Prop where
  /-- The bytes are as many as the tracker counts on. -/
  arena_capacity : r.arena.capacity = r.capacity
  /-- One record for each order lies below the position. -/
  position_eq : r.tracker.position = orders.length * recordSize
  /-- All these records lie within the region. -/
  position_le : r.tracker.position ≤ r.capacity
  /-- Each record is the block of its order. -/
  read_slot : ∀ {i : Nat} {order : Order}, orders[i]? = some order →
    r.arena.read (i * recordSize) = some (encode order)

/-- How many records still fit behind the position. -/
def room (r : Region) : Nat := r.tracker.recordsAfter r.tracker.position

/-- How many records fit into the region when it is empty. -/
def slots (r : Region) : Nat := r.capacity / recordSize

theorem hasRoom_iff {r : Region} :
    r.hasRoom = true ↔ r.tracker.position + recordSize ≤ r.capacity := by
  simp [hasRoom, Tracker.hasRoomAfter, capacity]

theorem canHoldRecord_iff {r : Region} : r.canHoldRecord = true ↔ recordSize ≤ r.capacity := by
  simp [canHoldRecord, Tracker.hasRoomAfter, capacity]

theorem canHoldRecord_iff_slots_pos {r : Region} : r.canHoldRecord = true ↔ 0 < r.slots := by
  rw [canHoldRecord_iff, slots, Nat.div_pos_iff]
  exact ⟨fun h => ⟨recordSize_pos, h⟩, And.right⟩

theorem hasRoom_iff_room_pos {r : Region} : r.hasRoom = true ↔ 0 < r.room := by
  rw [hasRoom_iff, room, Tracker.recordsAfter, Nat.div_pos_iff]
  have := recordSize_pos
  unfold capacity
  omega

theorem room_of_full {r : Region} (hfull : r.hasRoom = false) : r.room = 0 := by
  rw [← Nat.le_zero, ← Nat.not_lt, ← hasRoom_iff_room_pos, hfull]
  nofun

theorem push_of_room {r : Region} (block : Block) (hroom : r.hasRoom = true) :
    r.push block =
      ⟨r.tracker.store (r.tracker.position + recordSize),
        r.arena.write r.tracker.position block⟩ := by
  rw [push, if_pos hroom]

theorem push_of_full {r : Region} (block : Block) (hfull : r.hasRoom = false) :
    r.push block = r := by
  rw [push, if_neg (by simp [hfull])]

@[simp] theorem capacity_push (r : Region) (block : Block) :
    (r.push block).capacity = r.capacity := by
  unfold push
  split <;> rfl

@[simp] theorem capacity_rewind (r : Region) : r.rewind.capacity = r.capacity := rfl

@[simp] theorem capacity_clear (r : Region) : r.clear.capacity = r.capacity := rfl

@[simp] theorem capacity_makeRoom (r : Region) : r.makeRoom.capacity = r.capacity := by
  unfold makeRoom
  split <;> rfl

theorem makeRoom_of_room {r : Region} (hroom : r.hasRoom = true) : r.makeRoom = r := by
  simp [makeRoom, hroom]

theorem makeRoom_of_full {r : Region} (hfull : r.hasRoom = false) (hhold : r.canHoldRecord = true) :
    r.makeRoom = r.rewind := by
  simp [makeRoom, hfull, hhold]

/-- An overwriting append finds room exactly in a region that could hold a
record. -/
theorem hasRoom_makeRoom (r : Region) : r.makeRoom.hasRoom = r.canHoldRecord := by
  cases hroom : r.hasRoom with
  | true =>
    rw [makeRoom_of_room hroom, hroom]
    symm
    rw [canHoldRecord_iff]
    have := hasRoom_iff.mp hroom
    omega
  | false =>
    cases hhold : r.canHoldRecord with
    | true =>
      rw [makeRoom_of_full hroom hhold, hasRoom_iff]
      have := canHoldRecord_iff.mp hhold
      simpa [rewind, Tracker.reset, Tracker.store, capacity] using this
    | false => simp [makeRoom, hhold, hroom]

/-- An overwriting append changes nothing in a region too small for any
record. -/
theorem push_makeRoom_of_small {r : Region} (block : Block) (hsmall : r.canHoldRecord = false) :
    r.makeRoom.push block = r := by
  have hfull : r.makeRoom.hasRoom = false := by rw [hasRoom_makeRoom, hsmall]
  rw [push_of_full _ hfull, makeRoom, hsmall, Bool.and_false, if_neg Bool.false_ne_true]

/-- Room shrinks by one record with each that is appended. -/
theorem room_push {r : Region} (block : Block) (hroom : r.hasRoom = true) :
    (r.push block).room + 1 = r.room := by
  have hfits := hasRoom_iff.mp hroom
  unfold capacity at hfits
  rw [push_of_room block hroom]
  simp only [room, Tracker.recordsAfter, Tracker.store]
  rw [← Nat.add_div_right _ recordSize_pos]
  congr 1
  omega

theorem pushAll_of_full {r : Region} (orders : List Order) (hfull : r.hasRoom = false) :
    r.pushAll orders = (0, r) := by
  cases orders with
  | nil => rfl
  | cons order orders => simp [pushAll, hfull]

theorem pushAll_cons_of_room {r : Region} (order : Order) (orders : List Order)
    (hroom : r.hasRoom = true) :
    r.pushAll (order :: orders) =
      (((r.push (encode order)).pushAll orders).1 + 1,
        ((r.push (encode order)).pushAll orders).2) := by
  simp [pushAll, hroom]

/-- Of several orders as many are appended as there is room for. -/
theorem pushAll_fst (r : Region) (orders : List Order) :
    (r.pushAll orders).1 = min orders.length r.room := by
  induction orders generalizing r with
  | nil => simp [pushAll]
  | cons order orders ih =>
    cases hroom : r.hasRoom with
    | true =>
      have hpush := room_push (encode order) hroom
      rw [pushAll_cons_of_room order orders hroom, ih, List.length_cons]
      omega
    | false =>
      have hzero : ¬ 0 < r.room := by simp [← hasRoom_iff_room_pos, hroom]
      rw [pushAll_of_full _ hroom]
      omega

/-- Room shrinks by as many records as are appended. -/
theorem room_pushAll (r : Region) (orders : List Order) :
    (r.pushAll orders).2.room + (r.pushAll orders).1 = r.room := by
  induction orders generalizing r with
  | nil => rfl
  | cons order orders ih =>
    cases hroom : r.hasRoom with
    | true =>
      have hpush := room_push (encode order) hroom
      have hrest := ih (r.push (encode order))
      rw [pushAll_cons_of_room order orders hroom]
      dsimp only
      omega
    | false =>
      rw [pushAll_of_full _ hroom]
      rfl

@[simp] theorem capacity_pushAll (r : Region) (orders : List Order) :
    (r.pushAll orders).2.capacity = r.capacity := by
  induction orders generalizing r with
  | nil => rfl
  | cons order orders ih =>
    cases hroom : r.hasRoom with
    | true => rw [pushAll_cons_of_room order orders hroom, ih, capacity_push]
    | false => rw [pushAll_of_full _ hroom]

/-- Appending one order is appending a list of one. -/
theorem pushAll_singleton (r : Region) (order : Order) :
    (r.pushAll [order]).2 = r.push (encode order) := by
  cases hroom : r.hasRoom with
  | true => rw [pushAll_cons_of_room order [] hroom, pushAll]
  | false => rw [pushAll_of_full _ hroom, push_of_full _ hroom]

/-- Reading several offsets under one hold of the lock is reading each of
them. -/
theorem readMany_eq_map (r : Region) (offsets : List Nat) :
    r.readMany offsets = offsets.map r.read := by
  induction offsets with
  | nil => rfl
  | cons offset offsets ih => rw [readMany, ih, List.map_cons, read]

/-! ## What the operations do to the list -/

namespace Represents

variable {r : Region} {orders : List Order}

/-- A new region holds no orders. -/
theorem new (capacity : Nat) : (Region.new capacity).Represents [] where
  arena_capacity := Arena.capacity_new capacity
  position_eq := by simp [Region.new, Tracker.new]
  position_le := Nat.zero_le _
  read_slot := by simp

/-- Rewinding empties the list. -/
theorem rewind (h : r.Represents orders) : r.rewind.Represents [] where
  arena_capacity := h.arena_capacity
  position_eq := by simp [Region.rewind, Tracker.reset, Tracker.store]
  position_le := Nat.zero_le _
  read_slot := by simp

/-- Clearing empties the list. -/
theorem clear (h : r.Represents orders) : r.clear.Represents [] where
  arena_capacity := (Arena.capacity_clear r.arena).trans h.arena_capacity
  position_eq := by simp [Region.clear, Tracker.reset, Tracker.store]
  position_le := Nat.zero_le _
  read_slot := by simp

/-- An order that finds room comes behind the list. -/
theorem push (h : r.Represents orders) (order : Order) (hroom : r.hasRoom = true) :
    (r.push (encode order)).Represents (orders ++ [order]) := by
  have hfits := hasRoom_iff.mp hroom
  have hposition := h.position_eq
  rw [push_of_room _ hroom]
  constructor
  · exact (Arena.capacity_write ..).trans h.arena_capacity
  · simp only [Tracker.store, List.length_append, List.length_singleton, Nat.add_mul, Nat.one_mul]
    omega
  · exact hfits
  · intro i order' hget
    rw [List.getElem?_append] at hget
    split at hget
    · next hi =>
      have hslot := Nat.mul_le_mul_right recordSize (show i + 1 ≤ orders.length from hi)
      rw [Nat.add_mul, Nat.one_mul] at hslot
      rw [Arena.read_write_of_disjoint _ (by omega)]
      exact h.read_slot hget
    · next hi =>
      obtain ⟨hindex, rfl⟩ : i - orders.length = 0 ∧ order = order' := by
        simpa [List.getElem?_singleton] using hget
      obtain rfl : i = orders.length := by omega
      rw [← hposition]
      apply Arena.read_write_self
      rw [h.arena_capacity]
      exact hfits

/-- Of several orders those that find room come behind the list. -/
theorem pushAll (h : r.Represents orders) (more : List Order) :
    (r.pushAll more).2.Represents (orders ++ more.take r.room) := by
  induction more generalizing r orders with
  | nil => simpa [Region.pushAll] using h
  | cons order more ih =>
    cases hroom : r.hasRoom with
    | true =>
      have hpush := room_push (encode order) hroom
      have hrest := ih (h.push order hroom)
      rw [pushAll_cons_of_room order more hroom, ← hpush, List.take_succ_cons]
      simpa using hrest
    | false =>
      have hzero : r.room = 0 := by
        have : ¬ 0 < r.room := by simp [← hasRoom_iff_room_pos, hroom]
        omega
      simpa [pushAll_of_full _ hroom, hzero] using h

/-- A full region that could hold a record is emptied for an overwriting
append. -/
theorem makeRoom (h : r.Represents orders) :
    r.makeRoom.Represents (if r.hasRoom || !r.canHoldRecord then orders else []) := by
  cases hroom : r.hasRoom with
  | true => simpa [makeRoom_of_room hroom] using h
  | false =>
    cases hhold : r.canHoldRecord with
    | true => simpa [makeRoom_of_full hroom hhold] using h.rewind
    | false => simpa [Region.makeRoom, hhold] using h

/-- As many bytes are used as the listed orders take. -/
theorem used (h : r.Represents orders) : r.used = orders.length * recordSize := h.position_eq

/-- Every slot either holds an order of the list or is still free. -/
theorem length_add_room (h : r.Represents orders) : orders.length + r.room = r.slots := by
  have hle := h.position_le
  rw [h.position_eq] at hle
  have hlength := (Nat.le_div_iff_mul_le recordSize_pos).mpr hle
  have hroom : r.room = r.slots - orders.length := by
    rw [room, Tracker.recordsAfter, h.position_eq, Nat.mul_comm]
    exact Nat.sub_mul_div ..
  unfold slots at hroom ⊢
  omega

/-- A region reads back its list: the order number `i` at the offset of slot
`i`, as it is stored, and nothing anywhere else. -/
theorem read (h : r.Represents orders) (offset : Nat) :
    r.read offset =
      if offset % recordSize = 0 then orders[offset / recordSize]?.map Order.stored else none := by
  have hposition := h.position_eq
  unfold Region.read Tracker.isWritten isRecordWithin
  by_cases hslot : offset % recordSize = 0
  · obtain ⟨i, rfl⟩ : ∃ i, offset = i * recordSize :=
      ⟨offset / recordSize, (Nat.div_mul_cancel (Nat.dvd_of_mod_eq_zero hslot)).symm⟩
    have hindex : i * recordSize + recordSize ≤ r.tracker.position ↔ i < orders.length := by
      rw [hposition, ← Nat.succ_mul, Nat.mul_le_mul_right_iff recordSize_pos]
      rfl
    rw [if_pos hslot, Nat.mul_div_cancel _ recordSize_pos]
    simp only [hslot, hindex, true_and]
    by_cases hi : i < orders.length
    · have hget : orders[i]? = some orders[i] := List.getElem?_eq_getElem hi
      rw [hget, h.read_slot hget]
      simp only [hi, decide_true, if_true, decodeBlock_encode, Option.map_some]
      rfl
    · rw [List.getElem?_eq_none (by omega)]
      simp [hi]
  · simp [hslot]

/-- Orders that come behind the list are nothing to a read of any other slot than those
they take. -/
theorem read_of_append {r' : Region} {more : List Order} (h : r.Represents orders)
    (h' : r'.Represents (orders ++ more)) {offset : Nat}
    (hne : ∀ i < more.length, offset ≠ r.tracker.position + i * recordSize) :
    r'.read offset = r.read offset := by
  rw [h.read, h'.read]
  split
  · next haligned =>
    have hslot := Nat.div_mul_cancel (Nat.dvd_of_mod_eq_zero haligned)
    rcases Nat.lt_or_ge (offset / recordSize) orders.length with hbefore | hbehind
    · rw [List.getElem?_append_left hbefore]
    · obtain ⟨i, hi⟩ := Nat.exists_eq_add_of_le hbehind
      have hother : ¬ i < more.length := by
        intro hinside
        apply hne i hinside
        rw [h.position_eq, ← Nat.add_mul, ← hi, hslot]
      rw [hi, List.getElem?_eq_none (by rw [List.length_append]; omega),
        List.getElem?_eq_none (by omega)]
  · rfl

/-- Read slot by slot, a region gives its list. -/
theorem map_read (h : r.Represents orders) :
    (List.range (r.used / recordSize)).map (fun slot => r.read (slot * recordSize)) =
      orders.map fun order => some order.stored := by
  rw [h.used, Nat.mul_div_cancel _ recordSize_pos]
  apply List.ext_getElem?
  intro i
  rw [List.getElem?_map, List.getElem?_map]
  by_cases hi : i < orders.length
  · rw [List.getElem?_range hi, List.getElem?_eq_getElem hi, Option.map_some, h.read,
      Nat.mul_mod_left, if_pos rfl, Nat.mul_div_cancel _ recordSize_pos,
      List.getElem?_eq_getElem hi]
    rfl
  · rw [List.getElem?_eq_none (by rw [List.length_range]; omega),
      List.getElem?_eq_none (by omega)]
    rfl

end Represents

end Region

end OrderStore
