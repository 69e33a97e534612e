import OrderStore.Proofs.Buffer.Region

/-!
# Regions in machine words

A position is kept in a word of 64 bits, and a store never looks whether the arena has
taken a record. What becomes of a sum that does not fit, and whether anyone notices a
position outside of its region, depends on how the program is built. Here the operations
on a region are written down with these checks. On a region of less than `2 ^ 63` bytes
that holds whole records no check fails, so that every build does what the operations on
unbounded numbers do.
-/

namespace OrderStore

/-- How a program is built. -/
inductive Build where
  /-- Sums wrap around, and nothing is asserted. -/
  | release
  /-- A number that does not fit is a fault, and so is a position past the capacity. -/
  | debug
  /-- So are, moreover, a position between two slots and a record that is refused. -/
  | strict
deriving DecidableEq

/-- What stops a program. -/
inductive Fault where
  /-- A number does not fit into a word. -/
  | overflow
  /-- A position is past the capacity. -/
  | pastCapacity
  /-- A position is between two slots. -/
  | misaligned
  /-- A record does not fit into the arena. -/
  | refused
deriving DecidableEq

/-- A computation goes on with what it has got. -/
theorem Fault.ok_bind {α β : Type} (a : α) (f : α → Except Fault β) :
    (Except.ok a >>= f) = f a := rfl

namespace Build

/-- A sum or a product, as a word. -/
def word : Build → Nat → Except Fault Nat
  | release, n => .ok (n % 2 ^ 64)
  | _, n => if n < 2 ^ 64 then .ok n else .error .overflow

/-- A difference of two words, as a word. -/
def difference : Build → Nat → Nat → Except Fault Nat
  | release, m, n => .ok ((m + (2 ^ 64 - n)) % 2 ^ 64)
  | _, m, n => if n ≤ m then .ok (m - n) else .error .overflow

/-- Asserts that a position may be published. -/
def assertPosition : Build → Tracker → Nat → Except Fault Unit
  | release, _, _ => .ok ()
  | debug, t, position => if position ≤ t.capacity then .ok () else .error .pastCapacity
  | strict, t, position =>
    if t.capacity < position then .error .pastCapacity
    else if position % recordSize = 0 then .ok ()
    else .error .misaligned

/-- Whether one more record fits after `position`. -/
def hasRoomAfter (build : Build) (t : Tracker) (position : Nat) : Except Fault Bool := do
  let recordEnd ← build.word (position + recordSize)
  .ok (recordEnd ≤ t.capacity)

/-- The tracker moved to `position`. -/
def store (build : Build) (t : Tracker) (position : Nat) : Except Fault Tracker := do
  build.assertPosition t position
  .ok (t.store position)

/-- Moves from `current` to `next` if the position still is `current`. -/
def compareExchange (build : Build) (t : Tracker) (current next : Nat) :
    Except Fault (Except Nat Tracker) := do
  build.assertPosition t next
  .ok (t.compareExchange current next)

/-- The arena with a record copied in at `offset`. -/
def write : Build → Arena → Nat → Block → Except Fault Arena
  | strict, a, offset, block =>
    if a.fits offset then .ok (a.write offset block) else .error .refused
  | _, a, offset, block => .ok (a.write offset block)

/-- Appends a record if there is room; answers whether there was. -/
def push (build : Build) (r : Region) (block : Block) : Except Fault (Bool × Region) := do
  let position := r.tracker.position
  if ← build.hasRoomAfter r.tracker position then
    let arena ← build.write r.arena position block
    let next ← build.word (position + recordSize)
    let tracker ← build.store r.tracker next
    .ok (true, ⟨tracker, arena⟩)
  else .ok (false, r)

/-- Appends orders up to the first that does not fit; counts those written. -/
def pushAll (build : Build) (r : Region) : List Order → Except Fault (Nat × Region)
  | [] => .ok (0, r)
  | order :: orders => do
    let (written, r) ← build.push r (encode order)
    if written then
      let (count, r) ← build.pushAll r orders
      .ok (count + 1, r)
    else .ok (0, r)

/-- Appends a record, from the start again in a full region; answers whether it was
written. -/
def pushOver (build : Build) (r : Region) (block : Block) : Except Fault (Bool × Region) := do
  if ← build.hasRoomAfter r.tracker r.tracker.position then build.push r block
  else if ← build.hasRoomAfter r.tracker 0 then build.push r.rewind block
  else .ok (false, r)

/-! ## Checks that do not fail -/

variable (build : Build) {t : Tracker} {a : Arena} {r : Region} {orders : List Order}

theorem word_eq {n : Nat} (hn : n < 2 ^ 64) : build.word n = .ok n := by
  cases build with
  | release => rw [word, Nat.mod_eq_of_lt hn]
  | debug => exact if_pos hn
  | strict => exact if_pos hn

theorem difference_eq {m n : Nat} (hm : m < 2 ^ 64) (hn : n ≤ m) :
    build.difference m n = .ok (m - n) := by
  cases build with
  | release =>
    have hsum : m + (2 ^ 64 - n) = m - n + 2 ^ 64 := by omega
    rw [difference, hsum, Nat.add_mod_right, Nat.mod_eq_of_lt (by omega)]
  | debug => exact if_pos hn
  | strict => exact if_pos hn

theorem assertPosition_eq {position : Nat} (hle : position ≤ t.capacity)
    (haligned : position % recordSize = 0) : build.assertPosition t position = .ok () := by
  cases build with
  | release => rfl
  | debug => exact if_pos hle
  | strict => rw [assertPosition, if_neg (Nat.not_lt.mpr hle), if_pos haligned]

theorem hasRoomAfter_eq {position : Nat} (hposition : position < 2 ^ 63) :
    build.hasRoomAfter t position = .ok (t.hasRoomAfter position) := by
  have hrecord : recordSize < 2 ^ 63 := by decide
  rw [hasRoomAfter, build.word_eq (by omega)]
  rfl

-- at the top of the words one build stops, and another finds room
example :
    Build.debug.hasRoomAfter ⟨2 ^ 64 - 1, 2 ^ 64 - 64⟩ (2 ^ 64 - 64) = .error .overflow ∧
      Build.release.hasRoomAfter ⟨2 ^ 64 - 1, 2 ^ 64 - 64⟩ (2 ^ 64 - 64) = .ok true :=
  ⟨rfl, rfl⟩

theorem store_eq {position : Nat} (hle : position ≤ t.capacity)
    (haligned : position % recordSize = 0) : build.store t position = .ok (t.store position) := by
  rw [store, build.assertPosition_eq hle haligned]
  rfl

theorem compareExchange_eq {next : Nat} (current : Nat) (hle : next ≤ t.capacity)
    (haligned : next % recordSize = 0) :
    build.compareExchange t current next = .ok (t.compareExchange current next) := by
  rw [compareExchange, build.assertPosition_eq hle haligned]
  rfl

theorem write_eq {offset : Nat} (block : Block) (hfits : offset + recordSize ≤ a.capacity) :
    build.write a offset block = .ok (a.write offset block) := by
  cases build with
  | strict => exact if_pos (decide_eq_true hfits)
  | _ => rfl

theorem hasRoom_eq (h : r.Represents orders) (hsmall : r.capacity < 2 ^ 63) :
    build.hasRoomAfter r.tracker r.tracker.position = .ok r.hasRoom :=
  build.hasRoomAfter_eq (Nat.lt_of_le_of_lt h.position_le hsmall)

theorem canHoldRecord_eq (r : Region) :
    build.hasRoomAfter r.tracker 0 = .ok r.canHoldRecord := build.hasRoomAfter_eq (by decide)

/-- No check fails when a record is appended to whole records. -/
theorem push_eq (h : r.Represents orders) (hsmall : r.capacity < 2 ^ 63) (block : Block) :
    build.push r block = .ok (r.hasRoom, r.push block) := by
  rw [push, build.hasRoom_eq h hsmall, Fault.ok_bind]
  cases hroom : r.hasRoom with
  | true =>
    have hfits := Region.hasRoom_iff.mp hroom
    have haligned : (r.tracker.position + recordSize) % recordSize = 0 := by
      rw [Nat.add_mod_right, h.position_eq, Nat.mul_mod_left]
    rw [if_pos rfl, build.write_eq block (h.arena_capacity ▸ hfits), Fault.ok_bind,
      build.word_eq (by omega), Fault.ok_bind, build.store_eq hfits haligned, Fault.ok_bind,
      Region.push_of_room block hroom]
  | false => rw [if_neg Bool.false_ne_true, Region.push_of_full block hroom]

/-- No check fails when several are. -/
theorem pushAll_eq (h : r.Represents orders) (hsmall : r.capacity < 2 ^ 63) (more : List Order) :
    build.pushAll r more = .ok (r.pushAll more) := by
  induction more generalizing r orders with
  | nil => rfl
  | cons order more ih =>
    rw [pushAll, build.push_eq h hsmall, Fault.ok_bind]
    dsimp only
    cases hroom : r.hasRoom with
    | true =>
      have hrest := ih (h.push order hroom) (by rwa [Region.capacity_push])
      rw [if_pos rfl, hrest, Fault.ok_bind, Region.pushAll_cons_of_room order more hroom]
    | false =>
      rw [if_neg Bool.false_ne_true, Region.push_of_full _ hroom, Region.pushAll_of_full _ hroom]

/-- No check fails when a record is written over others. -/
theorem pushOver_eq (h : r.Represents orders) (hsmall : r.capacity < 2 ^ 63) (block : Block) :
    build.pushOver r block = .ok (r.makeRoom.hasRoom, r.makeRoom.push block) := by
  rw [pushOver, build.hasRoom_eq h hsmall, Fault.ok_bind]
  cases hroom : r.hasRoom with
  | true => rw [if_pos rfl, build.push_eq h hsmall, Region.makeRoom_of_room hroom]
  | false =>
    rw [if_neg Bool.false_ne_true, build.canHoldRecord_eq, Fault.ok_bind]
    cases hhold : r.canHoldRecord with
    | true =>
      rw [if_pos rfl, build.push_eq h.rewind hsmall, Region.makeRoom_of_full hroom hhold]
    | false =>
      rw [if_neg Bool.false_ne_true, Region.push_makeRoom_of_small block hhold,
        Region.hasRoom_makeRoom, hhold]

end Build

end OrderStore
