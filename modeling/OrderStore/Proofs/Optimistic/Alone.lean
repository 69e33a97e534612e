import OrderStore.Optimistic.Read
import OrderStore.Optimistic.Write
import OrderStore.Proofs.Buffer.Region

/-!
# Lock-free calls that are alone

A call that takes all its steps while nothing else happens never loses a
compare-and-swap. It does to the position and the bytes what a locked region
does, bumps both stamps once, and has enough steps to come to its end. A read
that is alone, in a buffer where no write is under way, gives what the region
gives.
-/

namespace OrderStore

/-- A retry policy is valid if writes and reads get at least one attempt. -/
theorem RetryPolicy.validate_eq_ok_iff {p : RetryPolicy} :
    p.validate = .ok () ↔ 0 < p.maxAttempts.toNat ∧ 0 < p.readRetries.toNat := by
  have hzero (n : UInt32) : n = 0 ↔ n.toNat = 0 := UInt32.toNat_inj.symm
  unfold RetryPolicy.validate
  split
  · next h =>
    have := (hzero _).mp h
    simp only [reduceCtorEq, false_iff]
    omega
  · next h =>
    have := mt (hzero _).mpr h
    split
    · next h =>
      have := (hzero _).mp h
      simp only [reduceCtorEq, false_iff]
      omega
    · next h =>
      have := mt (hzero _).mpr h
      simp only [true_iff]
      omega

namespace OptimisticBuffer

/-- The position and the bytes of the buffer, as a region. -/
def region (b : OptimisticBuffer) : Region := ⟨b.tracker, b.arena⟩

/-- The buffer with another position and other bytes, after one more write. -/
def afterWrite (b : OptimisticBuffer) (r : Region) : OptimisticBuffer :=
  { b with tracker := r.tracker, arena := r.arena, begun := b.begun + 1, finished := b.finished + 1 }

end OptimisticBuffer

/-- Appending orders to a region moves the position once and copies the records
one behind the other. -/
theorem Region.pushAll_snd (r : Region) (orders : List Order) :
    (r.pushAll orders).2 =
      ⟨r.tracker.store (r.tracker.position + min orders.length r.room * recordSize),
        r.arena.writeAll r.tracker.position ((orders.map encode).take r.room)⟩ := by
  induction orders generalizing r with
  | nil => simp [Region.pushAll, Arena.writeAll, Tracker.store]
  | cons order orders ih =>
    cases hroom : r.hasRoom with
    | true =>
      have hpush := Region.room_push (encode order) hroom
      rw [Region.pushAll_cons_of_room order orders hroom, ih, ← hpush,
        Region.push_of_room _ hroom, List.map_cons, List.take_succ_cons, Arena.writeAll,
        List.length_cons, Nat.add_min_add_right, Nat.add_mul, Nat.one_mul]
      simp only [Tracker.store, Region.mk.injEq, Tracker.mk.injEq, true_and, and_true]
      omega
    | false =>
      have hzero : r.room = 0 := by
        have : ¬ 0 < r.room := by simp [← Region.hasRoom_iff_room_pos, hroom]
        omega
      rw [Region.pushAll_of_full _ hroom, hzero]
      simp [Arena.writeAll, Tracker.store]

namespace WriteCall

section Steps

variable (b : OptimisticBuffer) (blocks : List Block) (wraps : Bool)

theorem step_begin : step b ⟨blocks, wraps, .begin⟩ =
    ({ b with begun := b.begun + 1 }, ⟨blocks, wraps, .attempt b.policy.maxAttempts.toNat⟩) := rfl

/-- How many records fit does not depend on what the call does next. -/
theorem countAfter_eq (phase : WritePhase) (position : Nat) :
    countAfter ⟨blocks, wraps, phase⟩ b position =
      min blocks.length (b.tracker.recordsAfter position) := rfl

/-- A call that finds room goes on to claim it. -/
theorem step_load_of_room {count : Nat} (retries : Nat)
    (hcount : min blocks.length (b.tracker.recordsAfter b.tracker.position) = count)
    (hne : count ≠ 0) :
    step b ⟨blocks, wraps, .load retries⟩ =
      (b, ⟨blocks, wraps, .reserve retries b.tracker.position count⟩) := by
  simp only [step, countAfter_eq, hcount, if_pos hne]

/-- A call that finds no room gives up or, if it overwrites, starts over. -/
theorem step_load_of_full (retries : Nat)
    (hcount : min blocks.length (b.tracker.recordsAfter b.tracker.position) = 0) :
    step b ⟨blocks, wraps, .load retries⟩ =
      (b, ⟨blocks, wraps,
        if wraps then .rewind retries b.tracker.position else .finish 0⟩) := by
  simp only [step, countAfter_eq, hcount, ne_eq, not_true_eq_false, if_false]

theorem step_rewind_of_eq {position : Nat} (retries : Nat) (h : b.tracker.position = position) :
    step b ⟨blocks, wraps, .rewind retries position⟩ =
      ({ b with tracker := b.tracker.reset },
        ⟨blocks, wraps, .reserve retries 0 (min blocks.length (b.tracker.recordsAfter 0))⟩) := by
  simp only [step, countAfter_eq, Tracker.compareExchange, if_pos h, Tracker.reset]

theorem step_reserve_of_eq {position : Nat} (retries count : Nat)
    (h : b.tracker.position = position) :
    step b ⟨blocks, wraps, .reserve retries position count⟩ =
      ({ b with tracker := b.tracker.store (position + count * recordSize) },
        ⟨blocks, wraps, .copy position count⟩) := by
  simp only [step, Tracker.compareExchange, if_pos h]

theorem step_copy (position count : Nat) : step b ⟨blocks, wraps, .copy position count⟩ =
    ({ b with arena := b.arena.writeAll position (blocks.take count) },
      ⟨blocks, wraps, .finish count⟩) := rfl

theorem step_finish (count : Nat) : step b ⟨blocks, wraps, .finish count⟩ =
    ({ b with finished := b.finished + 1 }, ⟨blocks, wraps, .done count⟩) := rfl

/-- A call that has come to its end stays there. -/
theorem run_done (steps count : Nat) : run steps b ⟨blocks, wraps, .done count⟩ = (count, b) := by
  cases steps <;> rfl

/-- A call that has not come to its end takes another step. -/
theorem run_succ {b b' : OptimisticBuffer} {w w' : WriteCall} (steps : Nat)
    (hstep : step b w = (b', w')) (hphase : ∀ count, w.phase ≠ .done count) :
    run (steps + 1) b w = run steps b' w' := by
  obtain ⟨blocks, wraps, phase⟩ := w
  cases phase with
  | done count => exact absurd rfl (hphase count)
  | _ => simp only [run, hstep]

end Steps

section Alone

variable {b : OptimisticBuffer} {blocks : List Block} {retries : Nat}

/-- A call that is alone and finds room writes as many of its records as fit. -/
theorem run_of_room {count : Nat} (steps : Nat) (wraps : Bool)
    (hattempts : b.policy.maxAttempts.toNat = retries + 1)
    (hcount : min blocks.length (b.tracker.recordsAfter b.tracker.position) = count)
    (hne : count ≠ 0) :
    run (steps + 5) b ⟨blocks, wraps, .begin⟩ =
      (count, b.afterWrite ⟨b.tracker.store (b.tracker.position + count * recordSize),
        b.arena.writeAll b.tracker.position (blocks.take count)⟩) := by
  let b₁ : OptimisticBuffer := { b with begun := b.begun + 1 }
  let b₂ : OptimisticBuffer :=
    { b₁ with tracker := b.tracker.store (b.tracker.position + count * recordSize) }
  let b₃ : OptimisticBuffer :=
    { b₂ with arena := b.arena.writeAll b.tracker.position (blocks.take count) }
  calc run (steps + 5) b ⟨blocks, wraps, .begin⟩
      = run (steps + 4) b₁ ⟨blocks, wraps, .load retries⟩ :=
        run_succ _ (by rw [step_begin, hattempts]; rfl) nofun
    _ = run (steps + 3) b₁ ⟨blocks, wraps, .reserve retries b.tracker.position count⟩ :=
        run_succ _ (step_load_of_room b₁ _ _ _ hcount hne) nofun
    _ = run (steps + 2) b₂ ⟨blocks, wraps, .copy b.tracker.position count⟩ :=
        run_succ _ (step_reserve_of_eq b₁ _ _ _ _ rfl) nofun
    _ = run (steps + 1) b₃ ⟨blocks, wraps, .finish count⟩ := run_succ _ (step_copy ..) nofun
    _ = run steps { b₃ with finished := b.finished + 1 } ⟨blocks, wraps, .done count⟩ :=
        run_succ _ (step_finish ..) nofun
    _ = _ := run_done ..

/-- A call that is alone, finds no room and does not overwrite writes nothing. -/
theorem run_of_full (steps : Nat) (hattempts : b.policy.maxAttempts.toNat = retries + 1)
    (hcount : min blocks.length (b.tracker.recordsAfter b.tracker.position) = 0) :
    run (steps + 3) b ⟨blocks, false, .begin⟩ = (0, b.afterWrite b.region) := by
  let b₁ : OptimisticBuffer := { b with begun := b.begun + 1 }
  calc run (steps + 3) b ⟨blocks, false, .begin⟩
      = run (steps + 2) b₁ ⟨blocks, false, .load retries⟩ :=
        run_succ _ (by rw [step_begin, hattempts]; rfl) nofun
    _ = run (steps + 1) b₁ ⟨blocks, false, .finish 0⟩ :=
        run_succ _ (step_load_of_full b₁ _ _ _ hcount) nofun
    _ = run steps { b₁ with finished := b.finished + 1 } ⟨blocks, false, .done 0⟩ :=
        run_succ _ (step_finish ..) nofun
    _ = _ := run_done ..

/-- An overwriting call that is alone and finds no room starts again at offset
zero, within the same attempt. -/
theorem run_of_wrap {count : Nat} (steps : Nat)
    (hattempts : b.policy.maxAttempts.toNat = retries + 1)
    (hfull : min blocks.length (b.tracker.recordsAfter b.tracker.position) = 0)
    (hcount : min blocks.length (b.tracker.recordsAfter 0) = count) :
    run (steps + 6) b ⟨blocks, true, .begin⟩ =
      (count, b.afterWrite ⟨b.tracker.store (0 + count * recordSize),
        b.arena.writeAll 0 (blocks.take count)⟩) := by
  let b₁ : OptimisticBuffer := { b with begun := b.begun + 1 }
  let b₂ : OptimisticBuffer := { b₁ with tracker := b.tracker.reset }
  let b₃ : OptimisticBuffer := { b₁ with tracker := b.tracker.store (0 + count * recordSize) }
  let b₄ : OptimisticBuffer := { b₃ with arena := b.arena.writeAll 0 (blocks.take count) }
  calc run (steps + 6) b ⟨blocks, true, .begin⟩
      = run (steps + 5) b₁ ⟨blocks, true, .load retries⟩ :=
        run_succ _ (by rw [step_begin, hattempts]; rfl) nofun
    _ = run (steps + 4) b₁ ⟨blocks, true, .rewind retries b.tracker.position⟩ :=
        run_succ _ (step_load_of_full b₁ _ _ _ hfull) nofun
    _ = run (steps + 3) b₂ ⟨blocks, true, .reserve retries 0 count⟩ :=
        run_succ _ (by rw [step_rewind_of_eq b₁ _ _ _ rfl, hcount]) nofun
    _ = run (steps + 2) b₃ ⟨blocks, true, .copy 0 count⟩ :=
        run_succ _ (step_reserve_of_eq b₂ _ _ _ _ rfl) nofun
    _ = run (steps + 1) b₄ ⟨blocks, true, .finish count⟩ := run_succ _ (step_copy ..) nofun
    _ = run steps { b₄ with finished := b.finished + 1 } ⟨blocks, true, .done count⟩ :=
        run_succ _ (step_finish ..) nofun
    _ = _ := run_done ..

/-- A call without any attempt bumps both stamps and writes nothing. -/
theorem run_of_no_attempts (steps : Nat) (wraps : Bool)
    (hattempts : b.policy.maxAttempts.toNat = 0) :
    run (steps + 2) b ⟨blocks, wraps, .begin⟩ = (0, b.afterWrite b.region) := by
  let b₁ : OptimisticBuffer := { b with begun := b.begun + 1 }
  calc run (steps + 2) b ⟨blocks, wraps, .begin⟩
      = run (steps + 1) b₁ ⟨blocks, wraps, .finish 0⟩ :=
        run_succ _ (by rw [step_begin, hattempts]; rfl) nofun
    _ = run steps { b₁ with finished := b.finished + 1 } ⟨blocks, wraps, .done 0⟩ :=
        run_succ _ (step_finish ..) nofun
    _ = _ := run_done ..

end Alone

end WriteCall

namespace OptimisticBuffer

variable {b : OptimisticBuffer}

/-- An append that is alone is an append to the region. -/
theorem append_eq (order : Order) (hattempts : 0 < b.policy.maxAttempts.toNat) :
    b.append order = (b.region.hasRoom, b.afterWrite (b.region.push (encode order))) := by
  obtain ⟨retries, hretries⟩ : ∃ retries, b.policy.maxAttempts.toNat = retries + 1 :=
    ⟨b.policy.maxAttempts.toNat - 1, by omega⟩
  have hcount : min [encode order].length (b.tracker.recordsAfter b.tracker.position) =
      min 1 b.region.room := rfl
  unfold append writeSteps WriteCall.append
  cases hroom : b.region.hasRoom with
  | true =>
    have hpos := Region.hasRoom_iff_room_pos.mp hroom
    have hone : min 1 b.region.room = 1 := by omega
    rw [hretries, show 4 * (retries + 1) + 4 = 4 * retries + 3 + 5 by omega,
      WriteCall.run_of_room _ _ hretries (hcount.trans hone) Nat.one_ne_zero,
      Region.push_of_room _ hroom]
    simp [region, Arena.writeAll]
  | false =>
    have hzero : min 1 b.region.room = 0 := by
      have : ¬ 0 < b.region.room := by simp [← Region.hasRoom_iff_room_pos, hroom]
      omega
    rw [hretries, show 4 * (retries + 1) + 4 = 4 * retries + 5 + 3 by omega,
      WriteCall.run_of_full _ hretries (hcount.trans hzero), Region.push_of_full _ hroom]
    rfl

/-- A batch that is alone is appended to the region order by order. One that
could not write anything even to an empty buffer does not bump the stamps. -/
theorem appendAll_eq (orders : List Order) (hattempts : 0 < b.policy.maxAttempts.toNat) :
    b.appendAll orders =
      ((b.region.pushAll orders).1,
        if min orders.length (b.tracker.capacity / recordSize) = 0 then b
        else b.afterWrite (b.region.pushAll orders).2) := by
  obtain ⟨retries, hretries⟩ : ∃ retries, b.policy.maxAttempts.toNat = retries + 1 :=
    ⟨b.policy.maxAttempts.toNat - 1, by omega⟩
  have hle : b.region.room ≤ b.tracker.capacity / recordSize :=
    Nat.div_le_div_right (Nat.sub_le _ _)
  have hfst := b.region.pushAll_fst orders
  unfold appendAll writeSteps WriteCall.batch
  rw [List.length_map]
  generalize hwanted : min orders.length (b.tracker.capacity / recordSize) = wanted
  dsimp only
  by_cases hzero : wanted = 0
  · rw [if_pos hzero, if_pos hzero, WriteCall.run_done, hfst]
    congr 1
    omega
  have hcount : min ((orders.map encode).take wanted).length
      (b.tracker.recordsAfter b.tracker.position) = (b.region.pushAll orders).1 := by
    rw [hfst, List.length_take, List.length_map]
    change min (min wanted orders.length) b.region.room = _
    omega
  rw [if_neg hzero, if_neg hzero, hretries]
  by_cases hnone : (b.region.pushAll orders).1 = 0
  · have hfull : b.region.hasRoom = false := by
      rw [← Bool.not_eq_true, Region.hasRoom_iff_room_pos]
      omega
    rw [show 4 * (retries + 1) + 4 = 4 * retries + 5 + 3 by omega,
      WriteCall.run_of_full _ hretries (hcount.trans hnone), Region.pushAll_of_full _ hfull]
  · have htake : ((orders.map encode).take wanted).take (b.region.pushAll orders).1 =
        (orders.map encode).take b.region.room := by
      rw [List.take_take, List.take_eq_take_iff, List.length_map, hfst]
      omega
    rw [show 4 * (retries + 1) + 4 = 4 * retries + 3 + 5 by omega,
      WriteCall.run_of_room _ _ hretries hcount hnone, htake, Region.pushAll_snd, hfst]
    rfl

/-- An overwriting append that is alone makes room in the region and is appended
to it. It touches nothing in a buffer too small for any record. -/
theorem appendRing_eq (order : Order) (hattempts : 0 < b.policy.maxAttempts.toNat) :
    b.appendRing order =
      (b.region.makeRoom.hasRoom,
        if recordSize ≤ b.tracker.capacity then
          b.afterWrite (b.region.makeRoom.push (encode order))
        else b) := by
  obtain ⟨retries, hretries⟩ : ∃ retries, b.policy.maxAttempts.toNat = retries + 1 :=
    ⟨b.policy.maxAttempts.toNat - 1, by omega⟩
  have hcount : min [encode order].length (b.tracker.recordsAfter b.tracker.position) =
      min 1 b.region.room := rfl
  have hhold : b.region.canHoldRecord = true ↔ recordSize ≤ b.tracker.capacity :=
    Region.canHoldRecord_iff
  unfold appendRing writeSteps WriteCall.ring
  rw [Region.hasRoom_makeRoom]
  by_cases hfits : recordSize ≤ b.tracker.capacity
  · rw [if_pos hfits, if_pos hfits, hhold.mpr hfits, hretries]
    cases hroom : b.region.hasRoom with
    | true =>
      have hpos := Region.hasRoom_iff_room_pos.mp hroom
      have hone : min 1 b.region.room = 1 := by omega
      rw [show 4 * (retries + 1) + 4 = 4 * retries + 3 + 5 by omega,
        WriteCall.run_of_room _ _ hretries (hcount.trans hone) Nat.one_ne_zero,
        Region.makeRoom_of_room hroom, Region.push_of_room _ hroom]
      simp [region, Arena.writeAll]
    | false =>
      have hzero : min 1 b.region.room = 0 := by
        have : ¬ 0 < b.region.room := by simp [← Region.hasRoom_iff_room_pos, hroom]
        omega
      have hone : min [encode order].length (b.tracker.recordsAfter 0) = 1 := by
        have hdiv : 0 < (b.tracker.capacity - 0) / recordSize :=
          Nat.div_pos hfits recordSize_pos
        rw [Tracker.recordsAfter, List.length_singleton]
        omega
      have hrewound : b.region.rewind.hasRoom = true := by
        rw [← Region.makeRoom_of_full hroom (hhold.mpr hfits), Region.hasRoom_makeRoom]
        exact hhold.mpr hfits
      rw [show 4 * (retries + 1) + 4 = 4 * retries + 2 + 6 by omega,
        WriteCall.run_of_wrap _ hretries (hcount.trans hzero) hone,
        Region.makeRoom_of_full hroom (hhold.mpr hfits), Region.push_of_room _ hrewound]
      simp [region, Region.rewind, Tracker.reset, Tracker.store, Arena.writeAll]
  · have hsmall : b.region.canHoldRecord = false := by
      rw [← Bool.not_eq_true, hhold]
      exact hfits
    rw [if_neg hfits, if_neg hfits, WriteCall.run_done, hsmall]
    rfl

/-- Whether or not it bumps the stamps, a batch that is alone leaves the region
that appending order by order leaves. -/
theorem region_appendAll (orders : List Order) (hattempts : 0 < b.policy.maxAttempts.toNat) :
    (b.appendAll orders).2.region = (b.region.pushAll orders).2 := by
  rw [appendAll_eq orders hattempts]
  dsimp only
  split
  · next hnone =>
    have hroom : b.region.room ≤ b.tracker.capacity / recordSize :=
      Nat.div_le_div_right (Nat.sub_le _ _)
    have hempty : orders = [] ∨ ¬ 0 < b.region.room := by
      rw [← List.length_eq_zero_iff]
      omega
    rcases hempty with rfl | hfull
    · rfl
    · rw [← Region.hasRoom_iff_room_pos, Bool.not_eq_true] at hfull
      rw [Region.pushAll_of_full _ hfull]
  · rfl

/-- Whether or not it bumps the stamps, an overwriting append that is alone
leaves the region with room made and the order appended. -/
theorem region_appendRing (order : Order) (hattempts : 0 < b.policy.maxAttempts.toNat) :
    (b.appendRing order).2.region = b.region.makeRoom.push (encode order) := by
  rw [appendRing_eq order hattempts]
  dsimp only
  split
  · rfl
  · next hsmall =>
    have hhold : b.region.canHoldRecord = false := by
      rw [← Bool.not_eq_true, Region.canHoldRecord_iff]
      exact hsmall
    rw [Region.push_makeRoom_of_small _ hhold]

/-! ### Without an attempt -/

theorem append_of_no_attempts (order : Order) (hattempts : b.policy.maxAttempts.toNat = 0) :
    b.append order = (false, b.afterWrite b.region) := by
  unfold append writeSteps WriteCall.append
  rw [hattempts, WriteCall.run_of_no_attempts _ _ hattempts]
  rfl

theorem appendAll_of_no_attempts (orders : List Order)
    (hattempts : b.policy.maxAttempts.toNat = 0) :
    b.appendAll orders =
      (0, if min orders.length (b.tracker.capacity / recordSize) = 0 then b
        else b.afterWrite b.region) := by
  unfold appendAll writeSteps WriteCall.batch
  rw [List.length_map, hattempts]
  dsimp only
  split
  · rw [WriteCall.run_done]
  · rw [WriteCall.run_of_no_attempts _ _ hattempts]

theorem appendRing_of_no_attempts (order : Order) (hattempts : b.policy.maxAttempts.toNat = 0) :
    b.appendRing order =
      (false, if recordSize ≤ b.tracker.capacity then b.afterWrite b.region else b) := by
  unfold appendRing writeSteps WriteCall.ring
  rw [hattempts]
  by_cases hfits : recordSize ≤ b.tracker.capacity
  · rw [if_pos hfits, if_pos hfits, WriteCall.run_of_no_attempts _ _ hattempts]
    rfl
  · rw [if_neg hfits, if_neg hfits, WriteCall.run_done]
    rfl

/-! ### The policy -/

theorem policy_append (order : Order) : (b.append order).2.policy = b.policy := by
  rcases Nat.eq_zero_or_pos b.policy.maxAttempts.toNat with hnone | hsome
  · rw [append_of_no_attempts order hnone]
    rfl
  · rw [append_eq order hsome]
    rfl

theorem policy_appendAll (orders : List Order) : (b.appendAll orders).2.policy = b.policy := by
  rcases Nat.eq_zero_or_pos b.policy.maxAttempts.toNat with hnone | hsome
  · rw [appendAll_of_no_attempts orders hnone]
    dsimp only
    split <;> rfl
  · rw [appendAll_eq orders hsome]
    dsimp only
    split <;> rfl

theorem policy_appendRing (order : Order) : (b.appendRing order).2.policy = b.policy := by
  rcases Nat.eq_zero_or_pos b.policy.maxAttempts.toNat with hnone | hsome
  · rw [appendRing_of_no_attempts order hnone]
    dsimp only
    split <;> rfl
  · rw [appendRing_eq order hsome]
    dsimp only
    split <;> rfl

end OptimisticBuffer

namespace ReadCall

section Steps

variable (b : OptimisticBuffer) (offset : Nat)

theorem step_loadFinished (retries : Nat) :
    step b ⟨offset, .loadFinished retries⟩ = ⟨offset, .loadBegun retries b.finished⟩ := rfl

/-- A call trusts what it will copy only if both stamps agree. -/
theorem step_loadBegun (retries : Nat) (finished : UInt64) :
    step b ⟨offset, .loadBegun retries finished⟩ =
      ⟨offset, if finished = b.begun then .loadPosition retries b.begun else .attempt retries⟩ :=
  rfl

theorem step_loadPosition (retries : Nat) (stamp : UInt64) :
    step b ⟨offset, .loadPosition retries stamp⟩ =
      ⟨offset, if b.tracker.isWritten offset then .copy retries stamp else .done none⟩ := rfl

theorem step_copy_of_none (retries : Nat) (stamp : UInt64) (h : b.arena.read offset = none) :
    step b ⟨offset, .copy retries stamp⟩ = ⟨offset, .done none⟩ := by
  simp only [step, h]

theorem step_copy_of_some {block : Block} (retries : Nat) (stamp : UInt64)
    (h : b.arena.read offset = some block) :
    step b ⟨offset, .copy retries stamp⟩ = ⟨offset, .check retries stamp block⟩ := by
  simp only [step, h]

/-- A call gives what it copied only if no write has begun since its stamp. -/
theorem step_check (retries : Nat) (stamp : UInt64) (block : Block) :
    step b ⟨offset, .check retries stamp block⟩ =
      ⟨offset, if b.begun = stamp then .done (decodeBlock block).toOption else .attempt retries⟩ :=
  rfl

/-- A call that has come to its end stays there. -/
theorem run_done (steps : Nat) (order : Option Order) :
    run steps b ⟨offset, .done order⟩ = order := by
  cases steps <;> rfl

/-- A call that has not come to its end takes another step. -/
theorem run_succ {b : OptimisticBuffer} {r r' : ReadCall} (steps : Nat) (hstep : step b r = r')
    (hphase : ∀ order, r.phase ≠ .done order) : run (steps + 1) b r = run steps b r' := by
  obtain ⟨offset, phase⟩ := r
  cases phase with
  | done order => exact absurd rfl (hphase order)
  | _ => simp only [run, hstep]

/-- While some write is under way, every attempt ends where it began. -/
theorem run_of_busy {b : OptimisticBuffer} (hbusy : b.finished ≠ b.begun) (steps retries : Nat) :
    run steps b ⟨offset, .attempt retries⟩ = none := by
  induction retries generalizing steps with
  | zero => exact run_done ..
  | succ retries ih =>
    match steps with
    | 0 => rfl
    | 1 => rfl
    | steps + 2 =>
      calc run (steps + 2) b ⟨offset, .loadFinished retries⟩
          = run (steps + 1) b ⟨offset, .loadBegun retries b.finished⟩ :=
            run_succ _ (step_loadFinished ..) nofun
        _ = run steps b ⟨offset, .attempt retries⟩ :=
            run_succ _ (by rw [step_loadBegun, if_neg hbusy]) nofun
        _ = none := ih steps

end Steps

end ReadCall

/-- A read that is alone, while no write is under way, reads from the region. -/
theorem OptimisticBuffer.read_eq {b : OptimisticBuffer} (offset : Nat)
    (hretries : 0 < b.policy.readRetries.toNat) (hquiet : b.finished = b.begun) :
    b.read offset = b.region.read offset := by
  obtain ⟨retries, hretries⟩ : ∃ retries, b.policy.readRetries.toNat = retries + 1 :=
    ⟨b.policy.readRetries.toNat - 1, by omega⟩
  have hstart : b.read offset =
      ReadCall.run (5 * retries + 3) b ⟨offset, .loadPosition retries b.begun⟩ := by
    unfold read ReadCall.start
    rw [hretries]
    calc ReadCall.run (5 * retries + 5) b ⟨offset, .loadFinished retries⟩
        = ReadCall.run (5 * retries + 4) b ⟨offset, .loadBegun retries b.finished⟩ :=
          ReadCall.run_succ _ (ReadCall.step_loadFinished ..) (by simp)
      _ = ReadCall.run (5 * retries + 3) b ⟨offset, .loadPosition retries b.begun⟩ :=
          ReadCall.run_succ _ (by rw [ReadCall.step_loadBegun, if_pos hquiet]) (by simp)
  rw [hstart]
  unfold Region.read region
  dsimp only
  by_cases hwritten : b.tracker.isWritten offset = true
  · rw [if_pos hwritten, ReadCall.run_succ _ (ReadCall.step_loadPosition ..) (by simp),
      if_pos hwritten]
    cases hblock : b.arena.read offset with
    | none =>
      rw [ReadCall.run_succ _ (ReadCall.step_copy_of_none _ _ _ _ hblock) (by simp),
        ReadCall.run_done]
    | some block =>
      rw [ReadCall.run_succ _ (ReadCall.step_copy_of_some _ _ _ _ hblock) (by simp),
        ReadCall.run_succ _ (ReadCall.step_check ..) (by simp), if_pos rfl, ReadCall.run_done]
  · rw [if_neg hwritten, ReadCall.run_succ _ (ReadCall.step_loadPosition ..) (by simp),
      if_neg hwritten, ReadCall.run_done]

/-- Without an attempt nothing is read. -/
theorem OptimisticBuffer.read_of_no_retries {b : OptimisticBuffer} (offset : Nat)
    (hretries : b.policy.readRetries.toNat = 0) : b.read offset = none := by
  unfold read ReadCall.start
  rw [hretries]
  rfl

/-- While some write is under way, a read that is alone finds nothing. -/
theorem OptimisticBuffer.read_of_busy {b : OptimisticBuffer} (offset : Nat)
    (hbusy : b.finished ≠ b.begun) : b.read offset = none :=
  ReadCall.run_of_busy offset hbusy _ _

/-- A write that has begun and finished and moved nothing is nothing to a read,
however often that is tried. -/
theorem OptimisticBuffer.read_afterWrite_region {b : OptimisticBuffer} (offset : Nat)
    (hquiet : b.finished = b.begun) : (b.afterWrite b.region).read offset = b.read offset := by
  by_cases hretries : 0 < b.policy.readRetries.toNat
  · have hquiet' : (b.afterWrite b.region).finished = (b.afterWrite b.region).begun :=
      congrArg (· + 1) hquiet
    rw [read_eq offset hretries hquiet, read_eq offset (by exact hretries) hquiet']
    rfl
  · have hzero : b.policy.readRetries.toNat = 0 := by omega
    rw [read_of_no_retries offset hzero, read_of_no_retries offset (by exact hzero)]

end OrderStore
