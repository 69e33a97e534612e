import OrderStore.Proofs.Segmented.Threads
import OrderStore.Proofs.Store.ReadBack
import OrderStore.Proofs.Store.Room

/-!
# States of a segmented buffer

Calls that run at the same time change a segmented buffer in small steps: under the
lock of one segment a call appends to it or empties it, and without a lock it moves a
counter. Whatever steps of whatever calls have been made, in any order, each segment
shows what landed in it last, and no slot is lost.
-/

namespace OrderStore

namespace Store

variable {s s' : Store} {log : List (Nat × Order)}

/-- Only the segments matter to what a store shows. -/
theorem Records.of_segments (h : s.Records log) (hquiet : s'.Quiet)
    (hsegments : s'.segments = s.segments) : s'.Records log where
  atRest := ⟨hquiet, hsegments ▸ h.atRest.represents⟩
  apart := hsegments ▸ h.apart
  shows := hsegments ▸ h.shows

/-- A change of one segment by which nothing lands keeps the log. -/
theorem Records.modify (h : s.Records log) (hquiet : s'.Quiet) {index : Nat}
    {change : Segment → Segment} (hsegments : s'.segments = s.segments.modify index change)
    (hspan : ∀ segment, (change segment).span = segment.span)
    (hchange : ∀ segment shown, s.segments[index]? = some segment → segment.Shows log shown →
      ∃ shown, (change segment).Shows log shown) : s'.Records log := by
  have hshows : ∀ segment ∈ s'.segments, ∃ shown, segment.Shows log shown := by
    rw [hsegments]
    intro segment hsegment
    obtain ⟨i, before, hbefore, hcases⟩ := exists_of_mem_modify hsegment
    obtain ⟨shown, hshown⟩ := h.shows before (List.mem_of_getElem? hbefore)
    rcases hcases with ⟨rfl, rfl⟩ | ⟨-, rfl⟩
    · exact hchange before shown hbefore hshown
    · exact ⟨shown, hshown⟩
  refine ⟨⟨hquiet, fun segment hsegment => ?_⟩, ?_, hshows⟩
  · obtain ⟨shown, hshown⟩ := hshows segment hsegment
    exact ⟨shown, hshown.represents⟩
  · rw [hsegments, map_span_modify _ _ hspan]
    exact h.apart

end Store

namespace SegmentedBuffer

variable {capacity count : Nat} {b : SegmentedBuffer} {log : List (Nat × Order)}

open Store

/-- The states that a new buffer comes to by whole calls, by changes of one segment each
as the holder of its lock makes them, and by moves of the counters. -/
inductive Reachable (capacity count : Nat) : SegmentedBuffer → Prop where
  /-- The buffer is new. -/
  | new : Reachable capacity count (.new capacity count)
  /-- A call was made on it alone. -/
  | perform {b b' : SegmentedBuffer} (before : Reachable capacity count b) (call : Call)
    (next : ((segmented b).perform call).2 = segmented b') : Reachable capacity count b'
  /-- Some call changed one segment. -/
  | change {b : SegmentedBuffer} (before : Reachable capacity count b) (index : Nat) (call : Call) :
    Reachable capacity count (b.modifyRegion index (·.after call))
  /-- Some calls took numbers. -/
  | count {b : SegmentedBuffer} (before : Reachable capacity count b)
    (writeCounter recycleCursor : UInt64) :
    Reachable capacity count { b with writeCounter, recycleCursor }

/-- A change of one segment keeps the buffer readable. -/
theorem records_modifyRegion (h : (segmented b).Records log) (index : Nat) (call : Call) :
    ∃ log, (segmented (b.modifyRegion index (·.after call))).Records log := by
  let change (segment : Segment) : Segment :=
    { segment with region := segment.region.after call }
  have hsegments : (segmented (b.modifyRegion index (·.after call))).segments =
      (segmented b).segments.modify index change := b.toList_modifyRegion index (·.after call)
  have hspan (segment : Segment) : (change segment).span = segment.span := by
    simp [change, Segment.span, Segment.size]
  by_cases hadmits : ∃ segment, (segmented b).segments[index]? = some segment ∧
      segment.region.admits call = true
  · obtain ⟨segment, hsegment, hadmits⟩ := hadmits
    have hreceive : (segmented b).segments.modify index change =
        (segmented b).segments.modify index (·.receive call.orders) := by
      apply List.ext_getElem?
      intro i
      rw [List.getElem?_modify, List.getElem?_modify]
      by_cases hi : index = i
      · rw [← hi, hsegment]
        simp [change, Segment.receive, Region.after_of_admits hadmits]
      · simp [hi]
    exact ⟨_, h.receive (.segmented _) hsegment (hsegments.trans hreceive)⟩
  · refine ⟨log, h.modify (.segmented _) hsegments hspan fun segment shown hsegment hshown => ?_⟩
    have hrefused : segment.region.admits call = false :=
      Bool.eq_false_iff.mpr fun hadmit => hadmits ⟨segment, hsegment, hadmit⟩
    by_cases hreset : call = .reset
    · subst hreset
      exact ⟨[], hshown.clear log⟩
    by_cases hforce : call = .forceReset
    · subst hforce
      exact ⟨[], hshown.rewind log⟩
    · have hsame : change segment = segment := by
        simp only [change, Region.after_of_refused hrefused hreset hforce]
      exact ⟨shown, by rwa [hsame]⟩

namespace Reachable

/-- The buffer keeps its size, and its segments stay where they are. -/
theorem layout (h : b.Reachable capacity count) :
    b.capacity = capacity ∧ b.segments.toList.map Segment.span =
      (SegmentedBuffer.new capacity count).segments.toList.map Segment.span := by
  induction h with
  | new => exact ⟨rfl, rfl⟩
  | @perform b b' before call next ih =>
    have hquiet : (segmented b).Quiet := .segmented b
    have hcapacity := capacity_perform hquiet call
    have hspan := map_span_perform hquiet call
    rw [next] at hcapacity hspan
    exact ⟨hcapacity.trans ih.1, hspan.trans ih.2⟩
  | @change b before index call ih =>
    refine ⟨ih.1, Eq.trans ?_ ih.2⟩
    rw [toList_modifyRegion]
    exact map_span_modify _ _ fun segment => by simp [Segment.span, Segment.size]
  | count before writeCounter recycleCursor ih => exact ih

/-- Where segment `index` lies, and how large it is. -/
theorem place_eq (h : b.Reachable capacity count) {index : Nat} {segment : Segment}
    (hsegment : b.segments.toList[index]? = some segment) :
    index < count ∧ segment.start = index * segmentSize capacity count ∧
      segment.size = if index + 1 = count then capacity - index * segmentSize capacity count
        else segmentSize capacity count := by
  have hget := congrArg (fun spans : List (Nat × Nat) => spans[index]?) h.layout.2
  rw [List.getElem?_map, hsegment, List.getElem?_map, getElem?_segments_new] at hget
  split at hget
  · next hindex =>
    obtain ⟨hstart, hend⟩ := Prod.mk.inj (Option.some.inj hget)
    refine ⟨hindex, hstart, Nat.add_left_cancel (hend.trans ?_)⟩
    rw [hstart]
    rfl
  · cases hget

/-- No segment is larger than the buffer. -/
theorem size_le (h : b.Reachable capacity count) {segment : Segment}
    (hsegment : segment ∈ b.segments.toList) : segment.size ≤ capacity := by
  obtain ⟨index, hindex⟩ := List.mem_iff_getElem?.mp hsegment
  obtain ⟨hlt, -, hsize⟩ := h.place_eq hindex
  have hall : segmentSize capacity count ≤ count * segmentSize capacity count :=
    Nat.le_mul_of_pos_left _ (Nat.zero_lt_of_lt hlt)
  have hfits := mul_segmentSize_le capacity count
  split at hsize <;> omega

theorem length_segments (h : b.Reachable capacity count) : b.segments.toList.length = count := by
  have hnew : (SegmentedBuffer.new capacity count).segments.toList.length = count := by
    rw [SegmentedBuffer.new, Array.length_toList, Array.size_ofFn]
  have hlength := congrArg List.length h.layout.2
  rw [List.length_map, List.length_map] at hlength
  exact hlength.trans hnew

/-- The buffer reads back what landed in it last. -/
theorem exists_records (h : b.Reachable capacity count) (hcount : 1 ≤ count) :
    ∃ log, (segmented b).Records log := by
  induction h with
  | new => exact ⟨[], IsNew.records (.segmented capacity hcount)⟩
  | perform before call next ih =>
    obtain ⟨log, hrecords⟩ := ih
    rw [← next]
    exact ⟨_, hrecords.perform call⟩
  | change before index call ih =>
    obtain ⟨log, hrecords⟩ := ih
    exact records_modifyRegion hrecords index call
  | count before writeCounter recycleCursor ih =>
    obtain ⟨log, hrecords⟩ := ih
    exact ⟨log, hrecords.of_segments (.segmented _) rfl⟩

/-- The buffer keeps its slots. -/
theorem measured (h : b.Reachable capacity count) (hcount : 1 ≤ count) :
    (segmented b).Measured capacity := by
  obtain ⟨log, hrecords⟩ := h.exists_records hcount
  exact ⟨hrecords.atRest, h.layout.1, (divide_new hcount).of_span h.layout.2⟩

/-- A history of calls that are made one after another leads to such a state. -/
theorem exists_after (h : b.Reachable capacity count) (calls : List Call) :
    ∃ b', (segmented b).after calls = segmented b' ∧ b'.Reachable capacity count := by
  induction calls generalizing b with
  | nil => exact ⟨b, rfl, h⟩
  | cons call calls ih =>
    obtain ⟨b', hb'⟩ : ∃ b', ((segmented b).perform call).2 = segmented b' := by
      cases call <;> exact ⟨_, rfl⟩
    obtain ⟨b'', hafter, hreachable⟩ := ih (h.perform call hb')
    refine ⟨b'', ?_, hreachable⟩
    rw [← hafter, ← hb']
    rfl

/-- So does a step of an append that other threads may interrupt. -/
theorem of_move {s s' : LockedSegments} {thread thread' : Placing.Thread} {event : Placing.Event}
    (h : s.buffer.Reachable capacity count) (hmove : thread.Move s event s' thread') :
    s'.buffer.Reachable capacity count := by
  cases hmove with
  | number => exact h.count _ _
  | @land order _ _ index => exact h.change index (.append order)
  | _ => exact h

/-- So does a step of an append that runs alone. -/
theorem of_step {s : LockedSegments} {p : PlaceCall} {order : Order}
    (h : s.buffer.Reachable capacity count) (hblock : p.block = encode order) :
    (p.step s).1.buffer.Reachable capacity count := by
  obtain ⟨block, phase⟩ := p
  obtain rfl : block = encode order := hblock
  exact h.of_move (Placing.Thread.move_step s order (.placing order none phase))

end Reachable

/-- Whatever order the steps of any threads come in, appends lead to such a state. -/
theorem reachable_system (c : Placing.Setup) (schedule : Placing.Schedule) :
    (c.system schedule).shared.buffer.Reachable c.capacity c.count :=
  c.invariant (motive := fun _ s => s.shared.buffer.Reachable c.capacity c.count) .new
    (fun _ _ _ _ hreachable hmoves => hreachable.of_move hmoves.move) schedule

end SegmentedBuffer

end OrderStore
