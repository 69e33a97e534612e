import OrderStore.Proofs.Store.AtRest

/-!
# Stores that cannot be told apart

Two stores at rest whose only cursor is that of the same region answer a call
alike and have the same region afterwards. So a caller who makes calls one after
another cannot tell which of the single-cursor strategies serves them, nor a
segmented store with one segment from any of these.
-/

namespace OrderStore

namespace Store

variable {s t : Store} {r : Region}

/-- A call leaves a single cursor where it leaves that of the region. -/
theorem Cursor.perform (h : s.Cursor r) (hrest : s.AtRest) (call : Call) :
    (s.perform call).2.Cursor (r.after call) where
  segments_eq := (segments_perform hrest.quiet call).trans (h.nextSegments_eq call)
  capacity_eq := by rw [capacity_perform hrest.quiet, h.capacity_eq, Region.capacity_after]

/-- A read sees the region. -/
theorem Cursor.read_eq (h : s.Cursor r) (hrest : s.AtRest) (offset : Nat) :
    s.read offset = Segment.readIn [⟨0, r⟩] offset := by
  rw [hrest.read_eq, h.segments_eq]

theorem Cursor.used_eq (h : s.Cursor r) : s.used = r.used := by
  rw [Store.used_eq, h.segments_eq]
  simp [Segment.usedIn]

/-- What a store with a single cursor answers depends on the region alone. -/
theorem Cursor.perform_fst_eq (hs : s.Cursor r) (hsrest : s.AtRest) (ht : t.Cursor r)
    (htrest : t.AtRest) (call : Call) : (s.perform call).1 = (t.perform call).1 := by
  have htarget : s.target? call = t.target? call := by rw [hs.target?_eq, ht.target?_eq]
  have hlandings : s.landings call = t.landings call := by
    rw [landings, landings, htarget, hs.segments_eq, ht.segments_eq]
  have hread (offset : Nat) : s.read offset = t.read offset := by
    rw [hs.read_eq hsrest, ht.read_eq htrest]
  have hcapacity : s.capacity = t.capacity := by rw [hs.capacity_eq, ht.capacity_eq]
  have hused : s.used = t.used := by rw [hs.used_eq, ht.used_eq]
  exact perform_fst_congr hsrest.quiet htrest.quiet hcapacity hused hread
    (congrArg Option.isSome htarget) (congrArg List.length hlandings)

/-- Stores whose only cursor is that of one region give the same answers to any
history of calls. -/
theorem Cursor.answers_eq (hs : s.Cursor r) (hsrest : s.AtRest) (ht : t.Cursor r)
    (htrest : t.AtRest) (calls : List Call) : s.answers calls = t.answers calls := by
  induction calls generalizing s t r with
  | nil => rfl
  | cons call calls ih =>
    have hfirst := hs.perform_fst_eq hsrest ht htrest call
    have hrest := ih (hs.perform hsrest call) (hsrest.perform call) (ht.perform htrest call)
      (htrest.perform call)
    calc s.answers (call :: calls)
        = (s.perform call).1 :: (s.perform call).2.answers calls := rfl
      _ = (t.perform call).1 :: (t.perform call).2.answers calls := by rw [hfirst, hrest]
      _ = t.answers (call :: calls) := rfl

/-- A buffer that is not split is a single region. -/
theorem Cursor.segmented_new (capacity : Nat) :
    (segmented (.new capacity 1)).Cursor (.new capacity) where
  segments_eq := by simp [segments, SegmentedBuffer.new, Segment.new]
  capacity_eq := rfl

/-- The single-cursor strategies, and a buffer in one segment, give the same
answers to every history of calls that are made one after another; and reading
several offsets under one hold of the lock is reading each of them. -/
theorem singleCursor_answers_eq (capacity : Nat) {policy : RetryPolicy}
    (hattempts : 1 ≤ policy.maxAttempts) (hretries : 1 ≤ policy.readRetries)
    (calls : List Call) :
    (optimistic (.new capacity policy)).answers calls =
        (exclusive (.new capacity)).answers calls ∧
      (readWrite (.new capacity)).answers calls = (exclusive (.new capacity)).answers calls ∧
      (segmented (.new capacity 1)).answers calls = (exclusive (.new capacity)).answers calls ∧
      ∀ offsets : List Nat, ((readWrite (.new capacity)).after calls).readMany offsets =
        offsets.map ((readWrite (.new capacity)).after calls).read := by
  have hcursor := Cursor.exclusive (.new capacity)
  have hrest := (IsNew.exclusive capacity).atRest
  refine ⟨?_, ?_, ?_, readMany_eq_map _⟩
  · exact Cursor.answers_eq (Cursor.optimistic (.new capacity policy))
      (IsNew.optimistic capacity hattempts hretries).atRest hcursor hrest calls
  · exact (Cursor.readWrite (.new capacity)).answers_eq (IsNew.readWrite capacity).atRest hcursor
      hrest calls
  · exact (Cursor.segmented_new capacity).answers_eq
      (IsNew.segmented capacity (Nat.le_refl 1)).atRest hcursor hrest calls

/-- The agreement in a store with room for two records and a bit, which three
overwriting appends wrap around. -/
theorem singleCursor_answers_eq_wrapped :
    1 ≤ ({} : RetryPolicy).maxAttempts ∧ 1 ≤ ({} : RetryPolicy).readRetries ∧
      (optimistic (.new 130 {})).answers
          [.appendRing { id := 1 }, .appendRing { id := 2 }, .appendRing { id := 3 }, .read 0] =
        (exclusive (.new 130)).answers
          [.appendRing { id := 1 }, .appendRing { id := 2 }, .appendRing { id := 3 }, .read 0] :=
  ⟨by decide, by decide, (singleCursor_answers_eq 130 (by decide) (by decide) _).1⟩

end Store

end OrderStore
