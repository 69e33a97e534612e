import OrderStore.Proofs.Buffer.Build
import OrderStore.Proofs.Optimistic.Alone
import OrderStore.Proofs.Optimistic.Sound

/-!
# Lock-free writes in machine words

The steps of a write call with the checks of a build. What a call has found out about
the room in the buffer bounds every sum that it forms later, so that no check fails, in
whatever state other calls have left the buffer.
-/

namespace OrderStore

/-- A step keeps the blocks of a call. -/
theorem WriteCall.blocks_step (b : OptimisticBuffer) (w : WriteCall) :
    (w.step b).2.blocks = w.blocks := by
  obtain ⟨blocks, wraps, phase⟩ := w
  cases phase with
  | rewind retries position =>
    simp only [step]
    cases b.tracker.compareExchange position 0 <;> rfl
  | reserve retries position count =>
    simp only [step]
    cases b.tracker.compareExchange position (position + count * recordSize) <;> rfl
  | _ => rfl

/-- A step of a call that is under way keeps the buffer sound and the call fitting. -/
theorem WriteCall.step_sound {c : Setup} {b : OptimisticBuffer} {w : WriteCall} {request : Request}
    (hb : b.Sound c) (hw : w.Fits c.capacity request) (hbusy : ∀ count, w.phase ≠ .done count) :
    (w.step b).1.Sound c ∧ (w.step b).2.Fits c.capacity request := by
  have hsound := (Thread.writeMove_step b request request w).sound hb hw
  obtain ⟨blocks, wraps, phase⟩ := w
  cases phase with
  | done count => exact absurd rfl (hbusy count)
  | _ => exact hsound

/-- A call keeps the buffer sound. -/
theorem WriteCall.run_sound {c : Setup} {b : OptimisticBuffer} {w : WriteCall} {request : Request}
    (hb : b.Sound c) (hw : w.Fits c.capacity request) (steps : Nat) : (w.run steps b).2.Sound c := by
  induction steps generalizing b w with
  | zero =>
    obtain ⟨blocks, wraps, phase⟩ := w
    cases phase <;> exact hb
  | succ steps ih =>
    by_cases hdone : ∃ count, w.phase = .done count
    · obtain ⟨count, hdone⟩ := hdone
      obtain ⟨blocks, wraps, phase⟩ := w
      obtain rfl : phase = .done count := hdone
      rwa [run_done]
    · have hbusy (count : Nat) : w.phase ≠ .done count := fun hphase => hdone ⟨count, hphase⟩
      obtain ⟨hb', hw'⟩ := step_sound hb hw hbusy
      rw [run_succ steps rfl hbusy]
      exact ih hb' hw'

namespace OptimisticBuffer.Sound

variable {c : Setup} {b : OptimisticBuffer}

theorem append (h : b.Sound c) (order : Order) : (b.append order).2.Sound c :=
  WriteCall.run_sound h (Request.fits_call h (.append order)) b.writeSteps

theorem appendAll (h : b.Sound c) (orders : List Order) : (b.appendAll orders).2.Sound c :=
  WriteCall.run_sound h (Request.fits_call h (.appendAll orders)) b.writeSteps

theorem appendRing (h : b.Sound c) (order : Order) : (b.appendRing order).2.Sound c :=
  WriteCall.run_sound h (Request.fits_call h (.appendRing order)) b.writeSteps

end OptimisticBuffer.Sound

namespace Build

/-- How many records of a call fit after `position`. A call with a single record adds its
size to the position, and a batch divides the room that is left. -/
def countAfter (build : Build) (single : Bool) (b : OptimisticBuffer) (w : WriteCall)
    (position : Nat) : Except Fault Nat := do
  if single then
    if ← build.hasRoomAfter b.tracker position then .ok 1 else .ok 0
  else .ok (w.countAfter b position)

/-- The arena with records copied in, of which the first is number `i` of those that begin
at `position`. -/
def writeAll (build : Build) (a : Arena) (position i : Nat) : List Block → Except Fault Arena
  | [] => .ok a
  | block :: blocks => do
    let distance ← build.word (i * recordSize)
    let offset ← build.word (position + distance)
    let a ← build.write a offset block
    build.writeAll a position (i + 1) blocks

/-- One step of a write call on the shared state. -/
def step (build : Build) (single : Bool) (b : OptimisticBuffer) (w : WriteCall) :
    Except Fault (OptimisticBuffer × WriteCall) :=
  match w.phase with
  | .load retries => do
    let position := b.tracker.position
    let count ← build.countAfter single b w position
    let phase :=
      if count ≠ 0 then .reserve retries position count
      else if w.wraps then .rewind retries position
      else .finish 0
    .ok (b, { w with phase })
  | .rewind retries position => do
    match ← build.compareExchange b.tracker position 0 with
    | .ok tracker =>
      let count := w.countAfter b 0
      .ok ({ b with tracker }, { w with phase := .reserve retries 0 count })
    | .error _ => .ok (b, { w with phase := .attempt retries })
  | .reserve retries position count => do
    let bytes ← build.word (count * recordSize)
    let next ← build.word (position + bytes)
    match ← build.compareExchange b.tracker position next with
    | .ok tracker => .ok ({ b with tracker }, { w with phase := .copy position count })
    | .error _ => .ok (b, { w with phase := .attempt retries })
  | .copy position count => do
    let arena ← build.writeAll b.arena position 0 (w.blocks.take count)
    .ok ({ b with arena }, { w with phase := .finish count })
  | _ => .ok (w.step b)

/-- Lets a call take up to `steps` steps on its own; answers how many records it
wrote. -/
def run (build : Build) (single : Bool) :
    (steps : Nat) → OptimisticBuffer → WriteCall → Except Fault (Nat × OptimisticBuffer)
  | 0, b, w => .ok (w.run 0 b)
  | steps + 1, b, w =>
    match w.phase with
    | .done count => .ok (count, b)
    | _ => do
      let (b, w) ← build.step single b w
      build.run single steps b w

/-! ## Checks that do not fail -/

variable (build : Build) {single : Bool} {c : Setup} {b : OptimisticBuffer} {w : WriteCall}
  {request : Request}

theorem countAfter_eq (hsingle : single = true → w.blocks.length = 1) {position : Nat}
    (hposition : position < 2 ^ 63) :
    build.countAfter single b w position = .ok (w.countAfter b position) := by
  cases single with
  | true =>
    have hrecords : b.tracker.hasRoomAfter position = true ↔
        0 < b.tracker.recordsAfter position := by
      rw [Tracker.recordsAfter, Nat.div_pos_iff, Tracker.hasRoomAfter, decide_eq_true_iff]
      have := recordSize_pos
      omega
    rw [countAfter, if_pos rfl, build.hasRoomAfter_eq hposition, Fault.ok_bind,
      WriteCall.countAfter, hsingle rfl]
    split
    · next hroom =>
      have := hrecords.mp hroom
      congr 1
      omega
    · next hfull =>
      have := mt hrecords.mpr hfull
      congr 1
      omega
  | false => rfl

theorem writeAll_eq {a : Arena} {position i : Nat} {blocks : List Block}
    (hfits : position + (i + blocks.length) * recordSize ≤ a.capacity)
    (hsmall : a.capacity < 2 ^ 63) :
    build.writeAll a position i blocks = .ok (a.writeAll (position + i * recordSize) blocks) := by
  induction blocks generalizing a i with
  | nil => rfl
  | cons block blocks ih =>
    have hslot : (i + 1) * recordSize = i * recordSize + recordSize := Nat.succ_mul i recordSize
    rw [List.length_cons, ← Nat.add_assoc, Nat.add_right_comm] at hfits
    have hfirst : position + (i + 1) * recordSize ≤ a.capacity :=
      Nat.le_trans (Nat.add_le_add_left (Nat.mul_le_mul_right _ (Nat.le_add_right ..)) _) hfits
    have hnext := ih (a := a.write (position + i * recordSize) block) (i := i + 1)
    rw [Arena.capacity_write] at hnext
    rw [writeAll, build.word_eq (by omega), Fault.ok_bind, build.word_eq (by omega), Fault.ok_bind,
      build.write_eq block (by omega), Fault.ok_bind, hnext hfits hsmall, Arena.writeAll, hslot,
      Nat.add_assoc]

/-- No check fails in a step of a call that fits the buffer. -/
theorem step_eq (hsmall : c.capacity < 2 ^ 63) (hb : b.Sound c) (hw : w.Fits c.capacity request)
    (hsingle : single = true → w.blocks.length = 1) :
    build.step single b w = .ok (w.step b) := by
  have hposition := hb.position_le
  obtain ⟨blocks, wraps, phase⟩ := w
  cases phase with
  | load retries =>
    simp only [step]
    rw [build.countAfter_eq hsingle (by omega)]
    rfl
  | rewind retries position =>
    simp only [step, WriteCall.step]
    rw [build.compareExchange_eq position (Nat.zero_le _) (Nat.zero_mod _), Fault.ok_bind]
    cases b.tracker.compareExchange position 0 <;> rfl
  | reserve retries position count =>
    obtain ⟨haligned, -, -, hwithin⟩ : Room _ _ _ _ := hw.phase_fits
    have hnext : (position + count * recordSize) % recordSize = 0 :=
      (Nat.add_mul_mod_self_right ..).trans haligned
    simp only [step, WriteCall.step]
    rw [build.word_eq (by omega), Fault.ok_bind, build.word_eq (by omega), Fault.ok_bind,
      build.compareExchange_eq position (hb.tracker_capacity ▸ hwithin) hnext, Fault.ok_bind]
    cases b.tracker.compareExchange position (position + count * recordSize) <;> rfl
  | copy position count =>
    obtain ⟨-, -, hlength, hwithin⟩ : Room _ _ _ _ := hw.phase_fits
    have hfits : position + (0 + (blocks.take count).length) * recordSize ≤ b.arena.capacity := by
      rwa [Nat.zero_add, List.length_take, Nat.min_eq_left hlength, hb.arena_capacity]
    simp only [step]
    rw [build.writeAll_eq hfits (hb.arena_capacity ▸ hsmall)]
    simp only [Fault.ok_bind, Nat.zero_mul, Nat.add_zero]
    rfl
  | _ => rfl

/-- A call that is under way takes its next step and goes on. -/
theorem run_succ (hbusy : ∀ count, w.phase ≠ .done count) (steps : Nat) :
    build.run single (steps + 1) b w = (do
      let (b, w) ← build.step single b w
      build.run single steps b w) := by
  obtain ⟨blocks, wraps, phase⟩ := w
  cases phase with
  | done count => exact absurd rfl (hbusy count)
  | _ => rfl

/-- No check fails in a call that fits the buffer. -/
theorem run_eq (single : Bool) (hsmall : c.capacity < 2 ^ 63) (hb : b.Sound c)
    (hw : w.Fits c.capacity request) (hsingle : single = true → w.blocks.length = 1)
    (steps : Nat) : build.run single steps b w = .ok (w.run steps b) := by
  induction steps generalizing b w with
  | zero => rfl
  | succ steps ih =>
    by_cases hdone : ∃ count, w.phase = .done count
    · obtain ⟨count, hdone⟩ := hdone
      obtain ⟨blocks, wraps, phase⟩ := w
      obtain rfl : phase = .done count := hdone
      rfl
    · have hbusy (count : Nat) : w.phase ≠ .done count := fun hphase => hdone ⟨count, hphase⟩
      obtain ⟨hb', hw'⟩ := WriteCall.step_sound hb hw hbusy
      have hrest := ih hb' hw' fun htrue => by rw [WriteCall.blocks_step, hsingle htrue]
      rw [build.run_succ hbusy, build.step_eq hsmall hb hw hsingle, Fault.ok_bind,
        WriteCall.run_succ steps rfl hbusy]
      exact hrest

/-! ## Calls -/

/-- Appends an order unless there is no room. -/
def optimisticAppend (build : Build) (b : OptimisticBuffer) (order : Order) :
    Except Fault (Bool × OptimisticBuffer) := do
  let (count, b) ← build.run true b.writeSteps b (.append (encode order))
  .ok (count != 0, b)

/-- Appends as many of the orders as fit. -/
def optimisticAppendAll (build : Build) (b : OptimisticBuffer) (orders : List Order) :
    Except Fault (Nat × OptimisticBuffer) :=
  build.run false b.writeSteps b (.batch b.tracker.capacity (orders.map encode))

/-- Appends an order, starting over from offset zero in a full buffer. -/
def optimisticAppendRing (build : Build) (b : OptimisticBuffer) (order : Order) :
    Except Fault (Bool × OptimisticBuffer) := do
  if ← build.hasRoomAfter b.tracker 0 then
    let (count, b) ← build.run true b.writeSteps b ⟨[encode order], true, .begin⟩
    .ok (count != 0, b)
  else .ok (false, b)

theorem optimisticAppend_eq (hsmall : c.capacity < 2 ^ 63) (hb : b.Sound c) (order : Order) :
    build.optimisticAppend b order = .ok (b.append order) := by
  have hrun := build.run_eq true hsmall hb (Request.fits_call hb (.append order)) (fun _ => rfl)
    b.writeSteps
  rw [optimisticAppend, hrun]
  rfl

theorem optimisticAppendAll_eq (hsmall : c.capacity < 2 ^ 63) (hb : b.Sound c)
    (orders : List Order) : build.optimisticAppendAll b orders = .ok (b.appendAll orders) :=
  build.run_eq false hsmall hb (Request.fits_call hb (.appendAll orders)) nofun b.writeSteps

theorem optimisticAppendRing_eq (hsmall : c.capacity < 2 ^ 63) (hb : b.Sound c) (order : Order) :
    build.optimisticAppendRing b order = .ok (b.appendRing order) := by
  have hrun := build.run_eq true hsmall hb (Request.fits_call hb (.appendRing order))
    (fun _ => rfl) b.writeSteps
  rw [optimisticAppendRing, build.hasRoomAfter_eq (by decide), Fault.ok_bind]
  unfold OptimisticBuffer.appendRing
  unfold WriteCall.ring at hrun ⊢
  by_cases hfits : recordSize ≤ b.tracker.capacity
  · have hroom : b.tracker.hasRoomAfter 0 = true := decide_eq_true (by omega)
    rw [if_pos hfits] at hrun ⊢
    rw [if_pos hroom, hrun]
    rfl
  · have hfull : ¬ b.tracker.hasRoomAfter 0 = true := fun hroom =>
      hfits (by simpa using of_decide_eq_true hroom)
    rw [if_neg hfits, if_neg hfull, WriteCall.run_done]
    rfl

end Build

end OrderStore
