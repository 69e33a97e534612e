import OrderStore.Proofs.Buffer.Alike
import OrderStore.Proofs.Optimistic.Alone

/-!
# Lock-free buffers that cannot be told apart

What a call that is alone does to a lock-free buffer depends on the policy, on
the stamps and on the position. What it answers depends on these and, if it
reads, on bytes below the position. So two buffers that agree on all of this stay
so, also where the policy leaves a call no attempt, and also where the stamps
say that a write is under way.
-/

namespace OrderStore

namespace OptimisticBuffer

/-- Two buffers with one policy, one position and the same stamps, and with the
same bytes below the position. -/
structure Alike (b b' : OptimisticBuffer) : Prop where
  /-- Calls try equally long. -/
  policy_eq : b.policy = b'.policy
  /-- As many writes have begun. -/
  begun_eq : b.begun = b'.begun
  /-- As many writes have finished. -/
  finished_eq : b.finished = b'.finished
  /-- Position and bytes cannot be told apart. -/
  region : b.region.Alike b'.region

namespace Alike

variable {b b' : OptimisticBuffer}

theorem tracker_eq (h : b.Alike b') : b.tracker = b'.tracker := h.region.tracker_eq

theorem afterWrite (h : b.Alike b') {r r' : Region} (hregion : r.Alike r') :
    (b.afterWrite r).Alike (b'.afterWrite r') where
  policy_eq := h.policy_eq
  begun_eq := congrArg (· + 1) h.begun_eq
  finished_eq := congrArg (· + 1) h.finished_eq
  region := hregion

theorem rewind (h : b.Alike b') : b.rewind.Alike b'.rewind :=
  ⟨h.policy_eq, h.begun_eq, h.finished_eq, h.region.rewind⟩

theorem clear (h : b.Alike b') : b.clear.Alike b'.clear :=
  ⟨h.policy_eq, h.begun_eq, h.finished_eq, h.region.clear⟩

/-- Either neither buffer gives a write an attempt, or both do. -/
theorem attempts_cases (h : b.Alike b') :
    (b.policy.maxAttempts.toNat = 0 ∧ b'.policy.maxAttempts.toNat = 0) ∨
      (0 < b.policy.maxAttempts.toNat ∧ 0 < b'.policy.maxAttempts.toNat) := by
  rw [← h.policy_eq]
  omega

theorem append (h : b.Alike b') (order : Order) :
    (b.append order).1 = (b'.append order).1 ∧ (b.append order).2.Alike (b'.append order).2 := by
  rcases h.attempts_cases with ⟨hnone, hnone'⟩ | ⟨hsome, hsome'⟩
  · rw [append_of_no_attempts order hnone, append_of_no_attempts order hnone']
    exact ⟨rfl, h.afterWrite h.region⟩
  · rw [append_eq order hsome, append_eq order hsome']
    exact ⟨h.region.hasRoom_eq, h.afterWrite (h.region.push _)⟩

theorem appendAll (h : b.Alike b') (orders : List Order) :
    (b.appendAll orders).1 = (b'.appendAll orders).1 ∧
      (b.appendAll orders).2.Alike (b'.appendAll orders).2 := by
  rcases h.attempts_cases with ⟨hnone, hnone'⟩ | ⟨hsome, hsome'⟩
  · rw [appendAll_of_no_attempts orders hnone, appendAll_of_no_attempts orders hnone',
      ← h.tracker_eq]
    refine ⟨rfl, ?_⟩
    dsimp only
    split
    · exact h
    · exact h.afterWrite h.region
  · rw [appendAll_eq orders hsome, appendAll_eq orders hsome', ← h.tracker_eq]
    refine ⟨h.region.pushAll_fst_eq orders, ?_⟩
    dsimp only
    split
    · exact h
    · exact h.afterWrite (h.region.pushAll orders)

theorem appendRing (h : b.Alike b') (order : Order) :
    (b.appendRing order).1 = (b'.appendRing order).1 ∧
      (b.appendRing order).2.Alike (b'.appendRing order).2 := by
  rcases h.attempts_cases with ⟨hnone, hnone'⟩ | ⟨hsome, hsome'⟩
  · rw [appendRing_of_no_attempts order hnone, appendRing_of_no_attempts order hnone',
      ← h.tracker_eq]
    refine ⟨rfl, ?_⟩
    dsimp only
    split
    · exact h.afterWrite h.region
    · exact h
  · rw [appendRing_eq order hsome, appendRing_eq order hsome', ← h.tracker_eq]
    refine ⟨h.region.makeRoom.hasRoom_eq, ?_⟩
    dsimp only
    split
    · exact h.afterWrite (h.region.makeRoom.push _)
    · exact h

/-- Reads never look above the position, whatever the stamps say. -/
theorem read_eq (h : b.Alike b') (offset : Nat) : b.read offset = b'.read offset := by
  by_cases hretries : 0 < b.policy.readRetries.toNat
  · by_cases hstamps : b.finished = b.begun
    · have hstamps' : b'.finished = b'.begun := by rw [← h.finished_eq, ← h.begun_eq, hstamps]
      rw [OptimisticBuffer.read_eq offset hretries hstamps,
        OptimisticBuffer.read_eq offset (h.policy_eq ▸ hretries) hstamps', h.region.read_eq]
    · have hstamps' : b'.finished ≠ b'.begun := by rwa [← h.finished_eq, ← h.begun_eq]
      rw [read_of_busy offset hstamps, read_of_busy offset hstamps']
  · have hzero : b.policy.readRetries.toNat = 0 := by omega
    rw [read_of_no_retries offset hzero, read_of_no_retries offset (h.policy_eq ▸ hzero)]

end Alike

end OptimisticBuffer

end OrderStore
