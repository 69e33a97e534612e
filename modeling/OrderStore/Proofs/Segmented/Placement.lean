import OrderStore.Proofs.Segmented.Contention
import OrderStore.Proofs.Store.ReadBack
import OrderStore.Proofs.Segmented.Layout
import OrderStore.Proofs.Tally

/-!
# Concurrent appends to a segmented buffer

Every record lands on a slot of its own, where it is read back ever after. What
has landed is what the calls that returned say they wrote, but for those that have
yet to return, and a call writes nothing only when nothing more fits. So however
the threads meet, as many calls are successful as there are slots, or all of them.
-/

namespace OrderStore

/-- Whether a call has written its order. -/
def PlacePhase.written : PlacePhase → Bool
  | release _ _ _ written => written
  | done written => written
  | _ => false

@[simp] theorem PlacePhase.written_afterRefusal (count : Nat) (pass : PlacePass)
    (index left : Nat) : (PlaceCall.afterRefusal count pass index left).written = false := by
  cases left with
  | zero =>
    cases pass with
    | probing contended => cases contended <;> rfl
    | waiting => rfl
  | succ left => cases pass <;> rfl

namespace Placing

/-! ## Landings -/

/-- The order that an event wrote, with its offset. -/
def Event.landed : Event → List (Nat × Order)
  | .land offset order => [(offset, order)]
  | _ => []

/-- The orders that were written, from the oldest on, each with its offset. -/
def landings (history : History) : List (Nat × Order) :=
  (tally Event.landed history).map Prod.snd

theorem landings_cons (t : Nat) (event : Event) (history : History) :
    landings ((t, event) :: history) = landings history ++ event.landed := by
  rw [landings, tally_cons, List.map_append, List.map_map]
  congr 1
  exact List.map_id _

/-- The buffer holds what has landed, each record on a slot of its own. -/
structure Filled (c : Setup) (history : History) (b : SegmentedBuffer) : Prop where
  /-- The segments show what landed in them last. -/
  records : (Store.segmented b).Records (landings history)
  /-- The segments lie where they lay at first. -/
  span_eq : b.segments.toList.map Segment.span =
    (SegmentedBuffer.new c.capacity c.count).segments.toList.map Segment.span
  /-- Every record is still there. -/
  kept : ∀ landing ∈ landings history, ((Store.segmented b).read landing.1).isSome
  /-- No two records landed on the same slot. -/
  nodup : ((landings history).map Prod.fst).Nodup

namespace Filled

variable {c : Setup} {history : History} {b : SegmentedBuffer}

/-- An order lands on a slot that holds no record, and the others stay. -/
theorem land (h : Filled c history b) {index : Nat} {segment : Segment} (t : Nat) (order : Order)
    (hsegment : b.segments[index]? = some segment) (hroom : segment.region.hasRoom = true) :
    Filled c ((t, .land (segment.start + segment.region.tracker.position) order) :: history)
      (b.modifyRegion index (·.push (encode order))) := by
  let b' := b.modifyRegion index (·.push (encode order))
  let landing := (segment.start + segment.region.tracker.position, order)
  have hget : (Store.segmented b).segments[index]? = some segment := by
    rw [Store.segments, Array.getElem?_toList, hsegment]
  have hsegments : (Store.segmented b').segments =
      (Store.segmented b).segments.modify index (·.receive [order]) := by
    have hmodify := Store.modifyRegion_pushAll [order]
      (SegmentedBuffer.hasRoom_eq_true_iff.mpr ⟨segment, hsegment, hroom⟩)
    simp only [Region.pushAll_singleton] at hmodify
    exact hmodify
  have hlandings : segment.landings [order] = [landing] := by
    rw [Segment.landings_singleton order (Region.canHoldRecord_of_hasRoom hroom),
      Region.makeRoom_of_room hroom]
  have hmem : landing ∈ segment.landings [order] := by
    rw [hlandings]
    exact List.mem_singleton_self _
  have hlog : landings ((t, .land landing.1 landing.2) :: history) =
      landings history ++ [landing] := landings_cons ..
  have hquiet := Store.Quiet.segmented b'
  constructor
  · rw [hlog, ← hlandings]
    exact h.records.receive hquiet hget hsegments
  · rw [← h.span_eq]
    exact (congrArg (List.map Segment.span) hsegments).trans
      (Store.map_span_modify _ _ fun segment => segment.span_receive [order])
  · rw [hlog]
    intro other hother
    rcases List.mem_append.mp hother with hold | hnew
    · have hkept := h.kept other hold
      rwa [h.records.read_receive_of_isSome hquiet hget hroom hsegments hkept]
    · obtain rfl := List.mem_singleton.mp hnew
      rw [h.records.read_of_mem_landings hquiet hget hsegments hmem]
      rfl
  · rw [hlog, List.map_append, List.nodup_append_comm]
    refine List.nodup_cons.mpr ⟨fun hold => ?_, h.nodup⟩
    obtain ⟨other, hother, heq⟩ := List.mem_map.mp hold
    have hsome := h.kept other hother
    rw [heq, h.records.read_eq_none_of_mem_landings hget hroom hmem] at hsome
    cases hsome

/-- A step that writes nothing leaves everything where it is. -/
theorem of_segments (h : Filled c history b) {b' : SegmentedBuffer} (t : Nat) {event : Event}
    (hsegments : b'.segments = b.segments) (hevent : event.landed = []) :
    Filled c ((t, event) :: history) b' := by
  have hlog : landings ((t, event) :: history) = landings history := by
    rw [landings_cons, hevent, List.append_nil]
  have hlist : (Store.segmented b').segments = (Store.segmented b).segments :=
    congrArg Array.toList hsegments
  have hread (offset : Nat) : (Store.segmented b').read offset = (Store.segmented b).read offset := by
    change b'.read offset = b.read offset
    rw [SegmentedBuffer.read, SegmentedBuffer.segmentFor?, hsegments]
    rfl
  obtain ⟨⟨hrest, happart, hshows⟩, hspan, hkept, hnodup⟩ := h
  rw [← hlist] at happart hshows
  refine ⟨⟨⟨.segmented b', ?_⟩, happart, ?_⟩, ?_, ?_, ?_⟩
  · rw [hlist]
    exact hrest.represents
  · rwa [hlog]
  · rwa [hsegments]
  · rw [hlog]
    intro landing hlanding
    rw [hread]
    exact hkept landing hlanding
  · rwa [hlog]

/-- The buffer reads back exactly what has landed. -/
theorem read_eq_some_iff (h : Filled c history b) {offset : Nat} {order : Order} :
    b.read offset = some order ↔
      ∃ original, (offset, original) ∈ landings history ∧ order = original.stored := by
  constructor
  · intro hread
    obtain ⟨original, hlatest, rfl⟩ := h.records.latest_of_read hread
    exact ⟨original, mem_of_latest hlatest, rfl⟩
  · rintro ⟨original, hmem, rfl⟩
    obtain ⟨order, hread⟩ := Option.isSome_iff_exists.mp (h.kept _ hmem)
    obtain ⟨other, hlatest, rfl⟩ := h.records.latest_of_read hread
    have heq := List.inj_on_of_nodup_map h.nodup hmem (mem_of_latest hlatest) rfl
    obtain rfl : original = other := (Prod.mk.inj heq).2
    exact hread

/-- Every slot holds a record or is free. -/
theorem length_add_roomIn (h : Filled c history b) :
    (landings history).length + Segment.roomIn b.segments.toList = c.capacity / recordSize := by
  obtain ⟨offsets, hnodup, hmem, hused⟩ := h.records.used_eq
  have hperm : offsets.Perm ((landings history).map Prod.fst) := by
    refine (List.perm_ext_iff_of_nodup hnodup h.nodup).mpr fun offset => ?_
    rw [hmem]
    constructor
    · intro hread
      obtain ⟨order, hread⟩ := Option.isSome_iff_exists.mp hread
      obtain ⟨original, hlanding, -⟩ := h.read_eq_some_iff.mp hread
      exact List.mem_map_of_mem hlanding
    · intro hlanding
      obtain ⟨landing, hmem, rfl⟩ := List.mem_map.mp hlanding
      exact h.kept landing hmem
  have hdivide := (SegmentedBuffer.divide_new c.count_pos).of_span h.span_eq
  have hslots := Segment.usedIn_add_roomIn h.records.atRest.represents
  rw [← Store.used_eq, hused, hperm.length_eq, List.length_map] at hslots
  apply Nat.eq_of_mul_eq_mul_left recordSize_pos
  rw [Nat.mul_add, ← hdivide.slotsIn_eq]
  exact hslots

end Filled

/-- After every schedule the buffer holds what has landed. -/
theorem Setup.filled (c : Setup) (schedule : Schedule) :
    Filled c (c.history schedule) (c.system schedule).shared.buffer := by
  apply c.invariant (motive := fun history s => Filled c history s.shared.buffer)
  · exact ⟨(Store.IsNew.segmented c.capacity c.count_pos).records, rfl, nofun, List.nodup_nil⟩
  · intro earlier t event s' hfilled hmoves
    rcases hmoves.move.segments_cases with
      ⟨hsame, hevent⟩ | ⟨index, segment, order, hsegment, hroom, hbuffer, rfl⟩
    · refine hfilled.of_segments t hsame ?_
      cases event with
      | land offset order => exact absurd rfl (hevent offset order)
      | _ => rfl
    · rw [hbuffer]
      exact hfilled.land t order hsegment hroom

/-! ## Reports -/

/-- The order that an event reports as written, with the offset that it landed on. -/
def Event.succeeded : Event → List (Nat × Order)
  | .returned order (some offset) true => [(offset, order)]
  | _ => []

/-- The order of a call that began. -/
def Event.started : Event → List Order
  | .start order => [order]
  | _ => []

/-- The order of a call that returned. -/
def Event.ended : Event → List Order
  | .returned order _ _ => [order]
  | _ => []

/-- The orders of all calls, from the oldest on. -/
def calls (history : History) : List Order := (tally Event.started history).map Prod.snd

/-- The orders of the successful calls, from the oldest on, each with the offset
that it landed on. -/
def successes (history : History) : List (Nat × Order) :=
  (tally Event.succeeded history).map Prod.snd

namespace Thread

/-- What a thread has written in the call that it is in. -/
def pending : Thread → List (Nat × Order)
  | .placing order landed? _ => landed?.toList.map (·, order)
  | .idle => []

/-- The order of the call that a thread is in. -/
def current : Thread → List Order
  | .placing order _ _ => [order]
  | .idle => []

/-- A call has an offset noted exactly if it has written. -/
def Noted : Thread → Prop
  | .placing _ landed? phase => landed?.isSome = phase.written
  | .idle => True

variable {s s' : LockedSegments} {thread thread' : Thread} {event : Event}

/-- The offset is noted when the call writes. -/
theorem Move.noted (h : Move s thread event s' thread') (hnoted : thread.Noted) :
    thread'.Noted := by
  cases h with
  | start | land | refuse => rfl
  | returned => trivial
  | full | pass | unlock_full =>
    change _ = PlacePhase.written (PlaceCall.afterRefusal ..)
    rw [PlacePhase.written_afterRefusal]
    exact hnoted
  | _ => exact hnoted

/-- What a thread writes, it reports when its call returns. -/
theorem Move.landed (h : Move s thread event s' thread') (hnoted : thread.Noted) :
    thread.pending ++ event.landed = event.succeeded ++ thread'.pending := by
  cases h with
  | start => rfl
  | @land order landed? =>
    obtain rfl : landed? = none := Option.not_isSome_iff_eq_none.mp (by rw [hnoted]; nofun)
    rfl
  | @refuse order landed? =>
    obtain rfl : landed? = none := Option.not_isSome_iff_eq_none.mp (by rw [hnoted]; nofun)
    rfl
  | @returned order landed? written =>
    have hwritten : landed?.isSome = written := hnoted
    subst hwritten
    cases landed? <;> rfl
  | _ => exact List.append_nil _

/-- A call that began returns its order. -/
theorem Move.started (h : Move s thread event s' thread') :
    thread.current ++ event.started = event.ended ++ thread'.current := by
  cases h <;> rfl

/-- A call that returns reports what it has written, unless it knows that every
segment is full. -/
theorem Move.reported_cases (h : Move s thread event s' thread') (hnoted : thread.Noted) :
    event.succeeded.length = event.ended.length ∨
      event.succeeded.length = 0 ∧ event.ended.length = 1 ∧
        ∃ order, thread = .placing order none (.done false) := by
  cases h with
  | @returned order landed? written =>
    have hwritten : landed?.isSome = written := hnoted
    subst hwritten
    cases landed? with
    | none => exact Or.inr ⟨rfl, rfl, order, rfl⟩
    | some offset => exact Or.inl rfl
  | _ => exact Or.inl rfl

end Thread

namespace Setup

variable (c : Setup) (schedule : Schedule)

theorem noted : ∀ u, ((c.system schedule).threads u).Noted := by
  apply c.invariant (motive := fun _ s => ∀ u, (s.threads u).Noted)
  · exact fun _ => trivial
  · intro earlier t event s' hnoted hmoves u
    by_cases hu : u = t
    · subst hu
      exact hmoves.move.noted (hnoted u)
    · rw [hmoves.others u hu]
      exact hnoted u

/-- A thread has written what it has reported, and what the call that it is in will
report. -/
theorem landed_balanced :
    Balanced Event.landed Event.succeeded (fun u => ((c.system schedule).threads u).pending)
      (c.history schedule) := by
  apply c.invariant (motive := fun history s =>
    Balanced Event.landed Event.succeeded (fun u => (s.threads u).pending) history)
  · exact .nil fun _ => rfl
  · intro earlier t event s' hbalanced hmoves
    exact hbalanced.cons (hmoves.move.landed (c.noted earlier t)) fun u hu => by
      rw [hmoves.others u hu]

/-- Every call of a thread has returned, but for the one that it is in. -/
theorem started_balanced :
    Balanced Event.started Event.ended (fun u => ((c.system schedule).threads u).current)
      (c.history schedule) := by
  apply c.invariant (motive := fun history s =>
    Balanced Event.started Event.ended (fun u => (s.threads u).current) history)
  · exact .nil fun _ => rfl
  · intro earlier t event s' hbalanced hmoves
    exact hbalanced.cons hmoves.move.started fun u hu => by rw [hmoves.others u hu]

/-- Every call that has returned was successful, or there is no room left. -/
theorem reported_cases :
    (tally Event.succeeded (c.history schedule)).length ≤
        (tally Event.ended (c.history schedule)).length ∧
      ((tally Event.succeeded (c.history schedule)).length =
          (tally Event.ended (c.history schedule)).length ∨
        ∀ index, (c.system schedule).shared.buffer.hasRoom index = false) := by
  apply c.invariant (motive := fun history s =>
    (tally Event.succeeded history).length ≤ (tally Event.ended history).length ∧
      ((tally Event.succeeded history).length = (tally Event.ended history).length ∨
        ∀ index, s.shared.buffer.hasRoom index = false))
  · exact ⟨Nat.le_refl _, Or.inl rfl⟩
  · rintro earlier t event s' ⟨hle, hcases⟩ hmoves
    have hfull (h : ∀ index, (c.system earlier).shared.buffer.hasRoom index = false) (index : Nat) :
        s'.shared.buffer.hasRoom index = false := by
      rw [Bool.eq_false_iff]
      intro hroom
      have hbefore := hmoves.move.hasRoom.2 index hroom
      rw [h index] at hbefore
      cases hbefore
    rw [tally_cons, tally_cons, List.length_append, List.length_append, List.length_map,
      List.length_map]
    rcases hmoves.move.reported_cases (c.noted earlier t) with
      hsame | ⟨hnone, hone, order, hthread⟩
    · refine ⟨by omega, ?_⟩
      rcases hcases with heq | hnoRoom
      · exact Or.inl (by omega)
      · exact Or.inr (hfull hnoRoom)
    · have hknows := (c.knows earlier).2 t
      rw [hthread] at hknows
      exact ⟨by omega, Or.inr (hfull (hknows rfl))⟩

/-- No two successful calls wrote at the same offset. -/
theorem nodup_successes : ((successes (c.history schedule)).map Prod.fst).Nodup := by
  obtain ⟨reported, hperm, hsublist⟩ := (c.landed_balanced schedule).subperm
  have hnodup : ((reported.map Prod.snd).map Prod.fst).Nodup :=
    ((hsublist.map Prod.snd).map Prod.fst).nodup (c.filled schedule).nodup
  exact ((hperm.map Prod.snd).map Prod.fst).nodup_iff.mp hnodup

/-- When no call is under way, what landed is what was reported. -/
theorem landings_perm_successes (hidle : ∀ u, (c.system schedule).threads u = .idle) :
    (landings (c.history schedule)).Perm (successes (c.history schedule)) :=
  ((c.landed_balanced schedule).perm fun u => by rw [hidle u]; rfl).map Prod.snd

/-- When no call is under way, as many were successful as there are slots, or
all. -/
theorem length_successes (hidle : ∀ u, (c.system schedule).threads u = .idle) :
    (successes (c.history schedule)).length =
      min (calls (c.history schedule)).length (c.capacity / recordSize) := by
  have hlandings := (c.landings_perm_successes schedule hidle).length_eq
  have hcalls := ((c.started_balanced schedule).perm fun u => by rw [hidle u]; rfl).length_eq
  have hslots := (c.filled schedule).length_add_roomIn
  obtain ⟨hle, hcases⟩ := c.reported_cases schedule
  rw [calls, List.length_map, hcalls]
  rw [hlandings] at hslots
  rw [successes, List.length_map] at hslots ⊢
  rcases hcases with heq | hfull
  · omega
  · have hnone := SegmentedBuffer.roomIn_eq_zero_iff.mpr hfull
    omega

end Setup

/-- Appends to a segmented buffer neither fail without reason nor collide, whatever
the capacity, the number of segments, the number of threads and the order of their
steps. A lock is held by at most one thread. A call returns without having written
only when no segment has room, and no two successful calls wrote at the same offset.
When no call is under way, as many were successful as there are slots, or all, and
the buffer reads back exactly their orders. -/
theorem placement_lossless (c : Setup) (schedule : Schedule) :
    (∀ index, index ∈ (c.system schedule).shared.held ↔
        ∃ t, ((c.system schedule).threads t).holds? = some index) ∧
      (∀ t u index, ((c.system schedule).threads t).holds? = some index →
        ((c.system schedule).threads u).holds? = some index → t = u) ∧
      (∀ t asked order landed?,
        ((c.system schedule).step t asked).1 = .returned order landed? false →
          ∀ segment ∈ (c.system schedule).shared.buffer.segments,
            segment.region.hasRoom = false) ∧
      (∀ t asked order landed? written,
        ((c.system schedule).step t asked).1 = .returned order landed? written →
          landed?.isSome = written) ∧
      ((successes (c.history schedule)).map Prod.fst).Nodup ∧
      ((∀ u, (c.system schedule).threads u = .idle) →
        (successes (c.history schedule)).length =
            min (calls (c.history schedule)).length (c.capacity / recordSize) ∧
          ∀ offset order, (c.system schedule).shared.buffer.read offset = some order ↔
            ∃ original, (offset, original) ∈ successes (c.history schedule) ∧
              order = { original with symbol := truncateSymbol original.symbol }) := by
  have hlocked := c.locked schedule
  have hfilled := c.filled schedule
  refine ⟨hlocked.mem_iff, hlocked.unique, ?_, ?_, ?_, fun hidle => ⟨?_, fun offset order => ?_⟩⟩
  · intro t asked order landed? hreturned
    exact SegmentedBuffer.forall_hasRoom_eq_false_iff.mp (c.full_of_returned hreturned)
  · intro t asked order landed? written hreturned
    have hnoted := c.noted schedule t
    rw [System.placing_of_returned hreturned] at hnoted
    exact hnoted
  · exact c.nodup_successes schedule
  · exact c.length_successes schedule hidle
  · rw [hfilled.read_eq_some_iff]
    simp only [(c.landings_perm_successes schedule hidle).mem_iff]
    rfl

/-- Of three calls on two segments one passes over a lock that another holds, waits
for it in the second round, and gives up when both segments are full. -/
theorem placement_lossless_contended :
    let c : Setup := ⟨128, 2, by decide⟩
    let earlier : Schedule := .replicate 6 (2, {}) ++ .replicate 3 (0, {}) ++
      .replicate 6 (2, {}) ++ .replicate 7 (1, {}) ++ .replicate 4 (0, {})
    let schedule : Schedule := (2, {}) :: earlier
    (((c.system earlier).step 2 {}).1 = .returned {} none false ∧
        ∀ segment ∈ (c.system earlier).shared.buffer.segments, segment.region.hasRoom = false) ∧
      (∀ u, (c.system schedule).threads u = .idle) ∧
      (successes (c.history schedule)).length =
        min (calls (c.history schedule)).length (128 / recordSize) := by
  intro c earlier schedule
  have hreturned : ((c.system earlier).step 2 {}).1 = .returned {} none false := by
    decide +kernel
  have hthreads : ∀ entry ∈ c.history schedule, entry.1 ∈ [0, 1, 2] := by decide +kernel
  have hback : ∀ u ∈ [0, 1, 2], (c.system schedule).threads u = .idle := by decide +kernel
  have hidle : ∀ u, (c.system schedule).threads u = .idle := by
    intro u
    by_cases hu : u ∈ [0, 1, 2]
    · exact hback u hu
    · refine c.idle_of_forall_ne schedule u fun entry hentry heq => hu ?_
      exact heq ▸ hthreads entry hentry
  obtain ⟨-, -, hfull, -⟩ := placement_lossless c earlier
  obtain ⟨-, -, -, -, -, hall⟩ := placement_lossless c schedule
  exact ⟨⟨hreturned, hfull 2 _ _ _ hreturned⟩, hidle, (hall hidle).1⟩

end Placing

end OrderStore
