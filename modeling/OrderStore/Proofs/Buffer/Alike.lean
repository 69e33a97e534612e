import OrderStore.Proofs.Buffer.Region

/-!
# Regions that cannot be told apart

What lies at or above the position of a region is never read, and an append
writes over it before the position moves past it. So two regions that agree on
the position and on the bytes below it stay so and read alike, whatever an
earlier rewinding left behind in either.
-/

namespace OrderStore

namespace Region

/-- Two regions with the same position and the same bytes below it. -/
structure Alike (r r' : Region) : Prop where
  /-- They are of one size and go on at one offset. -/
  tracker_eq : r.tracker = r'.tracker
  /-- The first has as many bytes as its tracker counts on. -/
  arena_left : r.arena.capacity = r.capacity
  /-- So has the second. -/
  arena_right : r'.arena.capacity = r'.capacity
  /-- The bytes below the position are the same. -/
  bytes_eq : ∀ i < r.tracker.position, r.arena.bytes[i]? = r'.arena.bytes[i]?

namespace Alike

variable {r r' : Region}

theorem capacity_eq (h : r.Alike r') : r.capacity = r'.capacity :=
  congrArg Tracker.capacity h.tracker_eq

theorem used_eq (h : r.Alike r') : r.used = r'.used := congrArg Tracker.used h.tracker_eq

theorem hasRoom_eq (h : r.Alike r') : r.hasRoom = r'.hasRoom := by
  rw [hasRoom, hasRoom, h.tracker_eq]

theorem canHoldRecord_eq (h : r.Alike r') : r.canHoldRecord = r'.canHoldRecord := by
  rw [canHoldRecord, canHoldRecord, h.tracker_eq]

theorem room_eq (h : r.Alike r') : r.room = r'.room := by rw [room, room, h.tracker_eq]

/-- A region that starts again has nothing below its position to agree on. -/
theorem of_start (htracker : r.tracker = r'.tracker) (hposition : r.tracker.position = 0)
    (hleft : r.arena.capacity = r.capacity) (hright : r'.arena.capacity = r'.capacity) :
    r.Alike r' := by
  refine ⟨htracker, hleft, hright, fun i hi => ?_⟩
  rw [hposition] at hi
  exact absurd hi (Nat.not_lt_zero i)

theorem rewind (h : r.Alike r') : r.rewind.Alike r'.rewind :=
  of_start (congrArg Tracker.reset h.tracker_eq) rfl h.arena_left h.arena_right

theorem clear (h : r.Alike r') : r.clear.Alike r'.clear :=
  of_start (congrArg Tracker.reset h.tracker_eq) rfl
    ((Arena.capacity_clear _).trans h.arena_left) ((Arena.capacity_clear _).trans h.arena_right)

/-- Zeroed bytes cannot be told from those that were left. -/
theorem clear_rewind (h : r.Alike r') : r.clear.Alike r'.rewind :=
  of_start (congrArg Tracker.reset h.tracker_eq) rfl
    ((Arena.capacity_clear _).trans h.arena_left) h.arena_right

/-- An append covers what it moves the position past. -/
theorem push (h : r.Alike r') (block : Block) : (r.push block).Alike (r'.push block) := by
  cases hroom : r.hasRoom with
  | false =>
    rw [push_of_full _ hroom, push_of_full _ (h.hasRoom_eq.symm.trans hroom)]
    exact h
  | true =>
    have hfits := hasRoom_iff.mp hroom
    have hright := h.arena_right.trans h.capacity_eq.symm
    rw [push_of_room _ hroom, push_of_room _ (h.hasRoom_eq.symm.trans hroom), ← h.tracker_eq]
    refine ⟨rfl, (Arena.capacity_write ..).trans h.arena_left,
      (Arena.capacity_write ..).trans hright, fun i hi => ?_⟩
    change (r.arena.write r.tracker.position block).bytes[i]? =
      (r'.arena.write r.tracker.position block).bytes[i]?
    replace hi : i < r.tracker.position + recordSize := hi
    rcases Nat.lt_or_ge i r.tracker.position with hbelow | hwritten
    · rw [Arena.getElem?_write_of_outside (.inl hbelow),
        Arena.getElem?_write_of_outside (.inl hbelow)]
      exact h.bytes_eq i hbelow
    · rw [Arena.getElem?_write_of_inside (h.arena_left ▸ hfits) hwritten hi,
        Arena.getElem?_write_of_inside (hright ▸ hfits) hwritten hi]

theorem pushAll_fst_eq (h : r.Alike r') (orders : List Order) :
    (r.pushAll orders).1 = (r'.pushAll orders).1 := by
  rw [pushAll_fst, pushAll_fst, h.room_eq]

theorem pushAll (h : r.Alike r') (orders : List Order) :
    (r.pushAll orders).2.Alike (r'.pushAll orders).2 := by
  induction orders generalizing r r' with
  | nil => exact h
  | cons order orders ih =>
    cases hroom : r.hasRoom with
    | false =>
      rw [pushAll_of_full _ hroom, pushAll_of_full _ (h.hasRoom_eq.symm.trans hroom)]
      exact h
    | true =>
      rw [pushAll_cons_of_room _ _ hroom,
        pushAll_cons_of_room _ _ (h.hasRoom_eq.symm.trans hroom)]
      exact ih (h.push _)

theorem makeRoom (h : r.Alike r') : r.makeRoom.Alike r'.makeRoom := by
  rw [Region.makeRoom, Region.makeRoom, h.hasRoom_eq, h.canHoldRecord_eq]
  split
  · exact h.rewind
  · exact h

/-- Reads never look above the position. -/
theorem read_eq (h : r.Alike r') (offset : Nat) : r.read offset = r'.read offset := by
  rw [Region.read, Region.read, ← h.tracker_eq]
  split
  · next hwritten =>
    have hend : offset + recordSize ≤ r.tracker.position := by
      simp only [Tracker.isWritten, isRecordWithin, decide_eq_true_eq] at hwritten
      exact hwritten.2
    have hcapacity : r.arena.capacity = r'.arena.capacity := by
      rw [h.arena_left, h.arena_right, h.capacity_eq]
    rw [Arena.read_congr hcapacity fun i hi => h.bytes_eq _ (by omega)]
  · rfl

end Alike

end Region

end OrderStore
