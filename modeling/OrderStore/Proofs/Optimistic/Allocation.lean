import OrderStore.Proofs.Optimistic.Alone
import OrderStore.Proofs.Optimistic.Defeats

/-!
# Allocation is disjoint and lossless

Without overwriting requests each byte below the position belongs to exactly one
claimed room, a call that writes nothing has claimed none, and once all calls
have returned the records below the position are exactly the orders that the
calls have reported as written.
-/

namespace OrderStore

/-- Whether an event claimed room or copied orders into it. -/
def Event.commits : Event → Bool
  | reserve .. => true
  | copyIn .. => true
  | _ => false

/-- A call never gives up room that it has claimed, and neither claims empty room nor
copies into any. -/
theorem Thread.WriteMove.claimed_le {capacity : Nat} {b b' : OptimisticBuffer} {request : Request}
    {w w' : WriteCall} {event : Event} (hfits : w.Fits capacity request)
    (h : WriteMove b request w event b' (.writing request w')) :
    w.phase.claimed ≤ w'.phase.claimed ∧ (event.commits = true → 0 < w'.phase.claimed) := by
  generalize hafter : Thread.writing request w' = after at h
  cases h with
  | reserve =>
    obtain ⟨-, rfl⟩ := Thread.writing.inj hafter
    have hroom : Room _ _ _ _ := hfits.phase_fits
    exact ⟨Nat.zero_le _, fun _ => hroom.pos⟩
  | copyIn =>
    obtain ⟨-, rfl⟩ := Thread.writing.inj hafter
    have hroom : Room _ _ _ _ := hfits.phase_fits
    exact ⟨Nat.le_refl _, fun _ => hroom.pos⟩
  | finish =>
    obtain ⟨-, rfl⟩ := Thread.writing.inj hafter
    exact ⟨Nat.le_refl _, nofun⟩
  | wrote => cases hafter
  | _ => exact ⟨Nat.zero_le _, nofun⟩

namespace Setup

variable (c : Setup) {schedule : Schedule}

/-- A call that has claimed room, or has copied into it, is going to report it. -/
theorem claimed_pos (schedule : Schedule) : ∀ u request w event,
    (c.system schedule).threads u = .writing request w →
      (u, event) ∈ since u (c.history schedule) → event.commits = true →
        0 < w.phase.claimed := by
  apply c.invariant (motive := fun history s => ∀ u request w event,
    s.threads u = .writing request w → (u, event) ∈ since u history → event.commits = true →
      0 < w.phase.claimed)
  · intro u request w event hthread
    cases hthread
  · intro earlier t event s' hclaimed hmoves u request w committing hthread hmem hcommits
    by_cases hu : u = t
    · subst hu
      have hmove := hmoves.move
      rw [hthread] at hmove
      rcases hmove.writing_cases with ⟨rfl, -⟩ | ⟨before, hbefore, hwrite⟩
      · rw [since_cons_start] at hmem
        cases hmem
      · have hfits := (c.sound earlier).2 u
        rw [hbefore] at hfits
        obtain ⟨hle, hcommit⟩ := hwrite.claimed_le hfits
        have hstart := hmoves.move.not_start (by rw [hbefore]; nofun)
        rw [since_cons_of_not_start hstart] at hmem
        rcases List.mem_cons.mp hmem with heq | hmem
        · obtain ⟨-, rfl⟩ := Prod.mk.inj heq
          exact hcommit hcommits
        · have hpos := hclaimed u request before committing hbefore hmem hcommits
          omega
    · rw [hmoves.others u hu] at hthread
      rw [since_cons_of_ne (Ne.symm hu)] at hmem
      rcases List.mem_cons.mp hmem with heq | hmem
      · exact absurd (Prod.mk.inj heq).1 hu
      · exact hclaimed u request w committing hthread hmem hcommits

/-- A call that reports nothing as written has claimed no room and copied nothing. -/
theorem not_commits_of_wrote_zero {t : Nat} {asked request : Request}
    (h : ((c.system schedule).step t asked).1 = .wrote request 0) {event : Event}
    (hmem : (t, event) ∈ since t (c.history schedule)) : event.commits = false := by
  obtain ⟨blocks, wraps, hthread⟩ := System.writing_of_wrote h
  rw [← Bool.not_eq_true]
  intro hcommits
  exact absurd (c.claimed_pos schedule t request _ event hthread hmem hcommits)
    (Nat.lt_irrefl 0)

/-- While no write is in flight, the buffer holds the orders for which room was
claimed. -/
theorem represents_claimed (hring : NoRing (c.history schedule))
    (hquiescent : (c.system schedule).Quiescent) :
    (c.system schedule).buffer.region.Represents (claimedOrders (c.history schedule)) := by
  have hsound := (c.sound schedule).1
  have hposition := (c.claimed_slots schedule hring).1
  refine ⟨?_, hposition, ?_, ?_⟩
  · exact hsound.arena_capacity.trans hsound.tracker_capacity.symm
  · exact Nat.le_trans hsound.position_le (Nat.le_of_eq hsound.tracker_capacity.symm)
  · intro i order hget
    obtain ⟨hi, -⟩ := List.getElem?_eq_some_iff.mp hget
    have hslot : i * recordSize + recordSize ≤ (c.system schedule).buffer.tracker.position := by
      rw [hposition, ← Nat.succ_mul]
      exact Nat.mul_le_mul_right _ hi
    have haligned : i * recordSize % recordSize = 0 := Nat.mul_mod_left ..
    obtain ⟨copied, hlatest⟩ := c.exists_latest_of_quiescent hquiescent haligned hslot
    obtain ⟨j, hoffset, hclaimed⟩ := c.copied_slots schedule hring _ (mem_of_latest hlatest)
    obtain rfl : i = j := Nat.eq_of_mul_eq_mul_right recordSize_pos hoffset
    obtain rfl : order = copied := Option.some.inj (hget.symm.trans hclaimed)
    exact c.read_arena_of_latest schedule _ _ haligned hlatest

/-- When no call is under way, the records below the position are the orders
reported as written. -/
theorem records_perm_reported (hring : NoRing (c.history schedule))
    (hidle : ∀ u, (c.system schedule).threads u = .idle) :
    ((List.range ((c.system schedule).buffer.tracker.position / recordSize)).map fun slot =>
      (c.system schedule).buffer.region.read (slot * recordSize)).Perm
        ((ordersOf Event.reported (c.history schedule)).map fun entry => some entry.2.stored) := by
  have hread := (c.represents_claimed hring (System.quiescent_of_idle hidle)).map_read
  rw [claimedOrders, List.map_map] at hread
  change (List.map _ (List.range ((c.system schedule).buffer.region.used / recordSize))).Perm _
  rw [hread]
  exact (c.claimed_perm_reported schedule hidle).map _

end Setup

/-- Allocation is disjoint and lossless, whatever the capacity, the policy, the
number of threads and the order of their steps. The claimed rooms lie one behind
the other, each on slots, and fill exactly what lies below the position, within
the capacity. A call that writes nothing has claimed nothing, and an append does
so only if it found no room or lost every attempt to a claim of another thread.
When no call is under way, the stamps agree, and the records below the position
are the orders reported as written. -/
theorem allocation_disjoint_lossless (c : Setup) (schedule : Schedule)
    (hring : NoRing (c.history schedule)) :
    (claims (c.history schedule)).Pairwise
        (fun later earlier => earlier.1 + earlier.2.length * recordSize ≤ later.1) ∧
      (∀ claim ∈ claims (c.history schedule), claim.1 % recordSize = 0 ∧ claim.2 ≠ []) ∧
      (∀ x, x < (c.system schedule).buffer.tracker.position ↔
        ∃ claim ∈ claims (c.history schedule),
          claim.1 ≤ x ∧ x < claim.1 + claim.2.length * recordSize) ∧
      (c.system schedule).buffer.tracker.position ≤ c.capacity ∧
      (∀ t asked request, ((c.system schedule).step t asked).1 = .wrote request 0 →
        ∀ position orders, (t, .reserve position orders) ∉ since t (c.history schedule)) ∧
      (∀ t asked order, ((c.system schedule).step t asked).1 = .wrote (.append order) 0 →
        GaveUp c t (since t (c.history schedule))) ∧
      ((∀ u, (c.system schedule).threads u = .idle) →
        (c.system schedule).buffer.begun = (c.system schedule).buffer.finished ∧
          ((List.range ((c.system schedule).buffer.tracker.position / recordSize)).map fun slot =>
            (c.system schedule).buffer.region.read (slot * recordSize)).Perm
              ((ordersOf Event.reported (c.history schedule)).map
                fun entry => some entry.2.stored)) := by
  have htiled := c.tiled schedule hring
  refine ⟨htiled.apart, htiled.aligned, fun x => ⟨htiled.covers x, ?_⟩,
    (c.sound schedule).1.position_le, ?_, ?_, ?_⟩
  · rintro ⟨claim, hclaim, -, hx⟩
    exact Nat.lt_of_lt_of_le hx (htiled.le_position claim hclaim)
  · intro t asked request hwrote position orders hmem
    cases c.not_commits_of_wrote_zero hwrote hmem
  · intro t asked order hwrote
    exact c.gaveUp hring hwrote
  · intro hidle
    exact ⟨(c.stamped schedule).stamps_eq (System.quiescent_of_idle hidle),
      c.records_perm_reported hring hidle⟩

/-- Of two threads that load the same position one claims the room and writes, and
the other, which has only one attempt, gives up. -/
theorem allocation_disjoint_lossless_contended :
    let c : Setup := ⟨128, { maxAttempts := 1 }⟩
    let earlier : Schedule := .replicate 2 (1, .append {}) ++ .replicate 7 (0, .append {}) ++
      .replicate 3 (1, .append {})
    let schedule : Schedule := (1, .append {}) :: earlier
    (NoRing (c.history earlier) ∧
      ((c.system earlier).step 1 (.append {})).1 = .wrote (.append {}) 0 ∧
      GaveUp c 1 (since 1 (c.history earlier))) ∧
    NoRing (c.history schedule) ∧ (∀ u, (c.system schedule).threads u = .idle) ∧
      [(c.system schedule).buffer.region.read 0].Perm [some (Order.stored {})] := by
  intro c earlier schedule
  have hearlier : NoRing (c.history earlier) := by decide +kernel
  have hring : NoRing (c.history schedule) := by decide +kernel
  have hwrote : ((c.system earlier).step 1 (.append {})).1 = .wrote (.append {}) 0 := by
    decide +kernel
  have hthreads : ∀ entry ∈ c.history schedule, entry.1 ∈ [0, 1] := by decide +kernel
  have hreturned : ∀ u ∈ [0, 1], (c.system schedule).threads u = .idle := by decide +kernel
  have hidle : ∀ u, (c.system schedule).threads u = .idle := by
    intro u
    by_cases hu : u ∈ [0, 1]
    · exact hreturned u hu
    · refine c.idle_of_forall_ne schedule u fun entry hentry heq => hu ?_
      exact heq ▸ hthreads entry hentry
  obtain ⟨-, -, -, -, -, hgaveUp, -⟩ := allocation_disjoint_lossless c earlier hearlier
  obtain ⟨-, -, -, -, -, -, hrecords⟩ := allocation_disjoint_lossless c schedule hring
  have hposition : (c.system schedule).buffer.tracker.position = recordSize := by decide +kernel
  have hreported : ordersOf Event.reported (c.history schedule) = [(0, {})] := by decide +kernel
  have hperm := (hrecords hidle).2
  rw [hposition, hreported] at hperm
  exact ⟨⟨hearlier, hwrote, hgaveUp 1 _ _ hwrote⟩, hring, hidle, hperm⟩

end OrderStore
