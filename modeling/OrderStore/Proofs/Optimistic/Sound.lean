import OrderStore.Proofs.Buffer.Landings
import OrderStore.Proofs.Optimistic.Threads

/-!
# What every schedule keeps

Under every schedule the position is a whole number of records within the
capacity, each call carries the blocks of the orders it was asked to write, and
the room that it has found or claimed lies within the buffer.
-/

namespace OrderStore

/-- Room for `count` records of a call behind `position`. -/
structure Room (capacity : Nat) (blocks : List Block) (position count : Nat) : Prop where
  /-- The room starts on a slot. -/
  aligned : position % recordSize = 0
  /-- There is room for at least one record. -/
  pos : 0 < count
  /-- The call has as many records. -/
  le_length : count ≤ blocks.length
  /-- The room lies within the buffer. -/
  within : position + count * recordSize ≤ capacity

/-- The room of a call, if it has found any, lies within the buffer, and only an
overwriting call moves the position back. -/
def WritePhase.Fits (capacity : Nat) (blocks : List Block) (wraps : Bool) : WritePhase → Prop
  | rewind .. => wraps = true
  | reserve _ position count => Room capacity blocks position count
  | copy position count => Room capacity blocks position count
  | finish count => count ≤ blocks.length
  | done count => count ≤ blocks.length
  | _ => True

/-- A write call fits its request and the buffer. -/
structure WriteCall.Fits (capacity : Nat) (request : Request) (w : WriteCall) : Prop where
  /-- The blocks are those of the first orders asked for. -/
  blocks_eq : w.blocks = (request.orders.take w.blocks.length).map encode
  /-- The call overwrites if it was asked to. -/
  wraps_eq : w.wraps = request.wraps
  /-- A call that cannot write anything has come to its end. -/
  usable : w.phase ≠ .done 0 → w.blocks ≠ [] ∧ (w.wraps = true → recordSize ≤ capacity)
  /-- Its room lies within the buffer. -/
  phase_fits : w.phase.Fits capacity w.blocks w.wraps

/-- The write call of a thread, if there is one, fits. -/
def Thread.Fits (capacity : Nat) : Thread → Prop
  | writing request w => w.Fits capacity request
  | _ => True

/-- The position is a whole number of records within the capacity. -/
structure OptimisticBuffer.Sound (c : Setup) (b : OptimisticBuffer) : Prop where
  /-- The tracker knows the size. -/
  tracker_capacity : b.tracker.capacity = c.capacity
  /-- There are as many bytes. -/
  arena_capacity : b.arena.capacity = c.capacity
  /-- The policy is that of the setup. -/
  policy_eq : b.policy = c.policy
  /-- The position is a slot's. -/
  aligned : b.tracker.position % recordSize = 0
  /-- The position is no further than the end. -/
  position_le : b.tracker.position ≤ c.capacity

/-- Stamps do not matter. -/
theorem OptimisticBuffer.Sound.of_tracker {c : Setup} {b b' : OptimisticBuffer} (h : b.Sound c)
    (htracker : b'.tracker = b.tracker) (harena : b'.arena.capacity = b.arena.capacity)
    (hpolicy : b'.policy = b.policy) : b'.Sound c where
  tracker_capacity := htracker ▸ h.tracker_capacity
  arena_capacity := harena ▸ h.arena_capacity
  policy_eq := hpolicy ▸ h.policy_eq
  aligned := htracker ▸ h.aligned
  position_le := htracker ▸ h.position_le

/-- The start is a slot's. -/
theorem OptimisticBuffer.Sound.rewind {c : Setup} {b : OptimisticBuffer} (h : b.Sound c) :
    b.rewind.Sound c :=
  ⟨h.tracker_capacity, h.arena_capacity, h.policy_eq, Nat.zero_mod _, Nat.zero_le _⟩

/-- Zeroed bytes are as many as before. -/
theorem OptimisticBuffer.Sound.clear {c : Setup} {b : OptimisticBuffer} (h : b.Sound c) :
    b.clear.Sound c :=
  h.rewind.of_tracker rfl b.arena.capacity_clear rfl

theorem Tracker.recordsAfter_mul_le (t : Tracker) (position : Nat) :
    t.recordsAfter position * recordSize ≤ t.capacity - position :=
  Nat.div_mul_le_self _ _

/-- A record that does not fit would end behind the capacity. -/
theorem Tracker.lt_of_recordsAfter_eq_zero {t : Tracker} {position : Nat}
    (h : t.recordsAfter position = 0) : t.capacity < position + recordSize := by
  have hdiv := (Nat.div_eq_zero_iff_lt recordSize_pos).mp h
  omega

/-- Records for which there is room lie within the capacity. -/
theorem Room.of_count {capacity position count : Nat} {blocks : List Block} {t : Tracker}
    (hcapacity : t.capacity = capacity) (haligned : position % recordSize = 0)
    (hcount : min blocks.length (t.recordsAfter position) = count) (hne : count ≠ 0) :
    Room capacity blocks position count := by
  have hrecords : count * recordSize ≤ capacity - position := by
    calc count * recordSize ≤ t.recordsAfter position * recordSize :=
          Nat.mul_le_mul_right _ (by omega)
      _ ≤ capacity - position := hcapacity ▸ t.recordsAfter_mul_le position
  have hpos : 0 < count * recordSize := Nat.mul_pos (by omega) recordSize_pos
  exact ⟨haligned, by omega, by omega, by omega⟩

/-- The next attempt of a call claims nothing yet. -/
theorem WritePhase.fits_attempt (capacity : Nat) (blocks : List Block) (wraps : Bool)
    (retries : Nat) : (attempt retries).Fits capacity blocks wraps := by
  cases retries with
  | zero => exact Nat.zero_le _
  | succ retries => trivial

theorem WriteCall.fits_batch (capacity : Nat) (orders : List Order) :
    (batch capacity (orders.map encode)).Fits capacity (.appendAll orders) := by
  unfold batch
  rw [List.length_map]
  generalize hwanted : min orders.length (capacity / recordSize) = wanted
  have hle : wanted ≤ orders.length := by omega
  constructor
  · dsimp only [Request.orders]
    rw [List.length_take, List.length_map, ← List.map_take, Nat.min_eq_left hle]
  · rfl
  · intro hphase
    refine ⟨?_, nofun⟩
    dsimp only at hphase ⊢
    split at hphase
    · exact absurd rfl hphase
    · rw [← List.length_pos_iff, List.length_take, List.length_map]
      omega
  · dsimp only
    split
    · exact Nat.zero_le _
    · trivial

theorem WriteCall.fits_ring (capacity : Nat) (order : Order) :
    (ring capacity (encode order)).Fits capacity (.appendRing order) := by
  unfold ring
  constructor
  · rfl
  · rfl
  · intro hphase
    dsimp only at hphase ⊢
    split at hphase
    · next hfits => exact ⟨by simp, fun _ => hfits⟩
    · exact absurd rfl hphase
  · dsimp only
    split
    · trivial
    · exact Nat.zero_le _

/-- The call that serves a request fits it. -/
theorem Request.fits_call {c : Setup} {b : OptimisticBuffer} (h : b.Sound c) (request : Request) :
    (request.call b).Fits c.capacity := by
  rw [← h.tracker_capacity]
  cases request with
  | append order => exact ⟨rfl, rfl, fun _ => ⟨by simp [WriteCall.append], nofun⟩, trivial⟩
  | appendAll orders => exact WriteCall.fits_batch b.tracker.capacity orders
  | appendRing order => exact WriteCall.fits_ring b.tracker.capacity order
  | read offset => trivial

/-- A step of a write call keeps the buffer sound and the call fitting. -/
theorem Thread.WriteMove.sound {c : Setup} {b b' : OptimisticBuffer} {request : Request}
    {w : WriteCall} {event : Event} {thread : Thread} (hb : b.Sound c)
    (hw : w.Fits c.capacity request) (h : WriteMove b request w event b' thread) :
    b'.Sound c ∧ thread.Fits c.capacity := by
  have hcapacity := hb.tracker_capacity
  obtain ⟨hblocks, hwraps, husable, hphase⟩ := hw
  cases h with
  | begin =>
    exact ⟨hb.of_tracker rfl rfl rfl, hblocks, hwraps, fun _ => husable (by simp),
      WritePhase.fits_attempt ..⟩
  | room hcount hne =>
    exact ⟨hb, hblocks, hwraps, fun _ => husable (by simp),
      Room.of_count hcapacity hb.aligned hcount hne⟩
  | full hcount => exact ⟨hb, hblocks, hwraps, fun _ => husable (by simp), Nat.zero_le _⟩
  | wrap hcount => exact ⟨hb, hblocks, hwraps, fun _ => husable (by simp), rfl⟩
  | @rewind blocks wraps retries =>
    obtain ⟨hne, hlarge⟩ := husable (by simp)
    have hsome : min blocks.length (b.tracker.recordsAfter 0) ≠ 0 := by
      have hlength : 0 < blocks.length := List.length_pos_iff.mpr hne
      have hroom : 0 < b.tracker.recordsAfter 0 := by
        rw [Tracker.recordsAfter, hcapacity]
        exact Nat.div_pos (hlarge hphase) recordSize_pos
      omega
    exact ⟨⟨hcapacity, hb.arena_capacity, hb.policy_eq, Nat.zero_mod _, Nat.zero_le _⟩,
      hblocks, hwraps, fun _ => husable (by simp), Room.of_count hcapacity (Nat.zero_mod _) rfl hsome⟩
  | rewind_lose hmoved =>
    exact ⟨hb, hblocks, hwraps, fun _ => husable (by simp), WritePhase.fits_attempt ..⟩
  | reserve =>
    have hroom : Room _ _ _ _ := hphase
    refine ⟨⟨hcapacity, hb.arena_capacity, hb.policy_eq, ?_, hroom.within⟩, hblocks, hwraps,
      fun _ => husable (by simp), hphase⟩
    exact (Nat.add_mul_mod_self_right ..).trans hroom.aligned
  | reserve_lose hmoved =>
    exact ⟨hb, hblocks, hwraps, fun _ => husable (by simp), WritePhase.fits_attempt ..⟩
  | copyIn =>
    have hroom : Room _ _ _ _ := hphase
    exact ⟨hb.of_tracker rfl (Arena.capacity_writeAll ..) rfl, hblocks, hwraps,
      fun _ => husable (by simp), hroom.le_length⟩
  | finish => exact ⟨hb.of_tracker rfl rfl rfl, hblocks, hwraps, fun _ => husable (by simp), hphase⟩
  | wrote => exact ⟨hb, trivial⟩

/-- A step of any thread keeps the buffer sound and the thread's call fitting. -/
theorem Thread.Move.sound {c : Setup} {b b' : OptimisticBuffer} {thread thread' : Thread}
    {event : Event} (hb : b.Sound c) (hthread : thread.Fits c.capacity)
    (h : Move b thread event b' thread') : b'.Sound c ∧ thread'.Fits c.capacity := by
  cases h with
  | start request => exact ⟨hb, request.fits_call hb⟩
  | write hmove => exact hmove.sound hb hthread
  | read hmove => cases hmove <;> exact ⟨hb, trivial⟩

/-- After every schedule the buffer is sound and all calls fit. -/
theorem Setup.sound (c : Setup) (schedule : Schedule) :
    (c.system schedule).buffer.Sound c ∧
      ∀ t, ((c.system schedule).threads t).Fits c.capacity := by
  apply c.invariant (motive := fun _ s => s.buffer.Sound c ∧ ∀ t, (s.threads t).Fits c.capacity)
  · exact ⟨⟨rfl, Arena.capacity_new _, rfl, rfl, Nat.zero_le _⟩, fun _ => trivial⟩
  · intro earlier t event s' ⟨hbuffer, hthreads⟩ hmoves
    obtain ⟨hbuffer', hthread'⟩ := hmoves.move.sound hbuffer (hthreads t)
    refine ⟨hbuffer', fun u => ?_⟩
    by_cases hu : u = t
    · subst hu
      exact hthread'
    · rw [hmoves.others u hu]
      exact hthreads u

/-- A call that was not asked to overwrite does not move the position back. -/
theorem WriteCall.Fits.ne_rewind {capacity retries position : Nat} {request : Request}
    {w : WriteCall} (h : w.Fits capacity request) (hplain : request.wraps = false) :
    w.phase ≠ .rewind retries position := by
  intro hphase
  have hfits := h.phase_fits
  rw [hphase] at hfits
  have hwraps : w.wraps = true := hfits
  rw [h.wraps_eq, hplain] at hwraps
  cases hwraps

/-- The first blocks of a call are those of its first orders. -/
theorem WriteCall.Fits.take_blocks {capacity count : Nat} {request : Request} {w : WriteCall}
    (h : w.Fits capacity request) (hcount : count ≤ w.blocks.length) :
    w.blocks.take count = (request.orders.take count).map encode := by
  rw [h.blocks_eq, ← List.map_take, List.take_take, Nat.min_eq_left hcount]

/-- A call has an order for each of its blocks. -/
theorem WriteCall.Fits.length_take {capacity count : Nat} {request : Request} {w : WriteCall}
    (h : w.Fits capacity request) (hcount : count ≤ w.blocks.length) :
    (request.orders.take count).length = count := by
  rw [← List.length_map encode, ← h.take_blocks hcount, List.length_take, Nat.min_eq_left hcount]

end OrderStore
