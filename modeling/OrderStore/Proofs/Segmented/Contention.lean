import OrderStore.Proofs.Segmented.Threads

/-!
# Locks and full segments

Each lock is held by at most one thread. A segment that is full stays so, and a
call that gives up has found every segment full: in the first round it saw all of
them so, or in the second it took each lock and found no room.
-/

namespace OrderStore

namespace Placing

/-! ## Locks -/

/-- The segment whose lock a thread holds. -/
def Thread.holds? : Thread → Option Nat
  | .placing _ _ (.append _ index _) => some index
  | .placing _ _ (.release _ index _ _) => some index
  | _ => none

/-- Locks are held by the threads that are between taking and releasing them. -/
structure Locked (s : System) : Prop where
  /-- Each lock is held once. -/
  nodup : s.shared.held.Nodup
  /-- Every lock that is held is held by some thread. -/
  mem_iff : ∀ index, index ∈ s.shared.held ↔ ∃ u, (s.threads u).holds? = some index
  /-- No lock is held by two threads. -/
  unique : ∀ t u index, (s.threads t).holds? = some index → (s.threads u).holds? = some index →
    t = u

@[simp] theorem holds?_afterRefusal (order : Order) (landed? : Option Nat) (count : Nat)
    (pass : PlacePass) (index left : Nat) :
    Thread.holds? (.placing order landed? (PlaceCall.afterRefusal count pass index left)) =
      none := by
  cases left with
  | zero =>
    cases pass with
    | probing contended => cases contended <;> rfl
    | waiting => rfl
  | succ left => cases pass <;> rfl

/-- What a step does to the locks: it takes one, releases one, or leaves them. -/
theorem Thread.Move.held_cases {s s' : LockedSegments} {thread thread' : Thread} {event : Event}
    (h : Move s thread event s' thread') :
    (s'.held = s.held ∧ thread'.holds? = thread.holds?) ∨
      (∃ index, index ∉ s.held ∧ s'.held = index :: s.held ∧ thread.holds? = none ∧
        thread'.holds? = some index) ∨
      ∃ index, s'.held = s.held.erase index ∧ thread.holds? = some index ∧
        thread'.holds? = none := by
  cases h with
  | @lock _ _ _ index _ hfree => exact Or.inr (Or.inl ⟨index, hfree, rfl, rfl, rfl⟩)
  | @unlock _ _ _ index _ => exact Or.inr (Or.inr ⟨index, rfl, rfl, rfl⟩)
  | @unlock_full _ _ _ index _ =>
    exact Or.inr (Or.inr ⟨index, rfl, rfl, holds?_afterRefusal ..⟩)
  | full hfull => exact Or.inl ⟨rfl, holds?_afterRefusal ..⟩
  | pass hheld => exact Or.inl ⟨rfl, holds?_afterRefusal ..⟩
  | _ => exact Or.inl ⟨rfl, rfl⟩

namespace Locked

variable {s s' : System} {t index : Nat}

/-- A thread takes a lock that nobody holds. -/
theorem take (h : Locked s) (hfree : index ∉ s.shared.held)
    (hheld : s'.shared.held = index :: s.shared.held) (hbefore : (s.threads t).holds? = none)
    (hafter : (s'.threads t).holds? = some index)
    (hothers : ∀ u, u ≠ t → (s'.threads u).holds? = (s.threads u).holds?) : Locked s' := by
  have hnobody (u : Nat) : (s.threads u).holds? ≠ some index :=
    fun hu => hfree ((h.mem_iff index).mpr ⟨u, hu⟩)
  refine ⟨hheld ▸ List.nodup_cons.mpr ⟨hfree, h.nodup⟩, fun other => ?_, fun u v other hu hv => ?_⟩
  · rw [hheld, List.mem_cons, h.mem_iff]
    constructor
    · rintro (rfl | ⟨u, hu⟩)
      · exact ⟨t, hafter⟩
      · have hne : u ≠ t := by
          rintro rfl
          rw [hbefore] at hu
          cases hu
        exact ⟨u, (hothers u hne).trans hu⟩
    · rintro ⟨u, hu⟩
      by_cases hut : u = t
      · rw [hut, hafter] at hu
        exact Or.inl (Option.some.inj hu).symm
      · exact Or.inr ⟨u, (hothers u hut).symm.trans hu⟩
  · by_cases hut : u = t <;> by_cases hvt : v = t
    · rw [hut, hvt]
    · rw [hut, hafter] at hu
      obtain rfl := Option.some.inj hu
      exact absurd ((hothers v hvt).symm.trans hv) (hnobody v)
    · rw [hvt, hafter] at hv
      obtain rfl := Option.some.inj hv
      exact absurd ((hothers u hut).symm.trans hu) (hnobody u)
    · exact h.unique u v other ((hothers u hut).symm.trans hu) ((hothers v hvt).symm.trans hv)

/-- A thread releases the lock that it holds. -/
theorem release (h : Locked s) (hheld : s'.shared.held = s.shared.held.erase index)
    (hbefore : (s.threads t).holds? = some index) (hafter : (s'.threads t).holds? = none)
    (hothers : ∀ u, u ≠ t → (s'.threads u).holds? = (s.threads u).holds?) : Locked s' := by
  have hstill {u other : Nat} (hu : (s'.threads u).holds? = some other) :
      u ≠ t ∧ (s.threads u).holds? = some other := by
    have hne : u ≠ t := by
      rintro rfl
      rw [hafter] at hu
      cases hu
    exact ⟨hne, (hothers u hne).symm.trans hu⟩
  refine ⟨hheld ▸ h.nodup.erase index, fun other => ?_, fun u v other hu hv => ?_⟩
  · rw [hheld, h.nodup.mem_erase_iff, h.mem_iff]
    constructor
    · rintro ⟨hne, u, hu⟩
      have hut : u ≠ t := by
        rintro rfl
        exact hne (Option.some.inj (hu.symm.trans hbefore))
      exact ⟨u, (hothers u hut).trans hu⟩
    · rintro ⟨u, hu⟩
      obtain ⟨hne, hu⟩ := hstill hu
      refine ⟨?_, u, hu⟩
      rintro rfl
      exact hne (h.unique u t other hu hbefore)
  · exact h.unique u v other (hstill hu).2 (hstill hv).2

/-- A step keeps to the locks. -/
theorem step {event : Event} (h : Locked s) (hmoves : s.Moves t event s') : Locked s' := by
  have hothers (u : Nat) (hu : u ≠ t) : (s'.threads u).holds? = (s.threads u).holds? := by
    rw [hmoves.others u hu]
  rcases hmoves.move.held_cases with
    ⟨hheld, hsame⟩ | ⟨index, hfree, hheld, hbefore, hafter⟩ | ⟨index, hheld, hbefore, hafter⟩
  · have hall (u : Nat) : (s'.threads u).holds? = (s.threads u).holds? := by
      by_cases hu : u = t
      · rw [hu, hsame]
      · exact hothers u hu
    refine ⟨hheld ▸ h.nodup, fun index => ?_, fun u v index => ?_⟩
    · simp only [hheld, hall]
      exact h.mem_iff index
    · rw [hall, hall]
      exact h.unique u v index
  · exact h.take hfree hheld hbefore hafter hothers
  · exact h.release hheld hbefore hafter hothers

end Locked

theorem Setup.locked (c : Setup) (schedule : Schedule) : Locked (c.system schedule) := by
  apply c.invariant (motive := fun _ s => Locked s)
  · exact ⟨List.nodup_nil, fun index => ⟨nofun, nofun⟩, nofun⟩
  · intro earlier t event s' hlocked hmoves
    exact hlocked.step hmoves

/-! ## Full segments -/

/-- What a step does to the segments: it writes one record where there is room, or
leaves them. -/
theorem Thread.Move.segments_cases {s s' : LockedSegments} {thread thread' : Thread} {event : Event}
    (h : Move s thread event s' thread') :
    (s'.buffer.segments = s.buffer.segments ∧ ∀ offset order, event ≠ .land offset order) ∨
      ∃ index segment order, s.buffer.segments[index]? = some segment ∧
        segment.region.hasRoom = true ∧
        s'.buffer = s.buffer.modifyRegion index (·.push (encode order)) ∧
        event = .land (segment.start + segment.region.tracker.position) order := by
  cases h with
  | land hsegment hroom => exact Or.inr ⟨_, _, _, hsegment, hroom, rfl, rfl⟩
  | _ => exact Or.inl ⟨rfl, nofun⟩

/-- No step makes room, and none adds or removes a segment. -/
theorem Thread.Move.hasRoom {s s' : LockedSegments} {thread thread' : Thread} {event : Event}
    (h : Move s thread event s' thread') :
    s'.buffer.segments.size = s.buffer.segments.size ∧
      ∀ index, s'.buffer.hasRoom index = true → s.buffer.hasRoom index = true := by
  rcases h.segments_cases with ⟨hsame, -⟩ | ⟨index, segment, order, hsegment, hroom, hbuffer, -⟩
  · refine ⟨by rw [hsame], fun index hroom => ?_⟩
    rwa [SegmentedBuffer.hasRoom, hsame] at hroom
  · rw [hbuffer]
    refine ⟨Array.size_modify, fun other hother => ?_⟩
    by_cases heq : index = other
    · subst heq
      exact SegmentedBuffer.hasRoom_eq_true_iff.mpr ⟨segment, hsegment, hroom⟩
    · simpa [SegmentedBuffer.hasRoom, SegmentedBuffer.modifyRegion, Array.getElem?_modify, heq]
        using hother

/-- A call that looks for room at segment `index`, with `left` more to follow, has
gone over all others. Unless it has passed over a lock, it knows that these are
full. -/
structure Searching (b : SegmentedBuffer) (pass : PlacePass) (index left : Nat) : Prop where
  /-- There is such a segment. -/
  index_lt : index < b.segments.size
  /-- Segments with room are still to come. -/
  ahead : pass ≠ .probing true → ∀ j, b.hasRoom j = true →
    ∃ i ≤ left, (index + i) % b.segments.size = j

/-- What a call knows about the segments. -/
def Knows (b : SegmentedBuffer) : PlacePhase → Prop
  | .number => 0 < b.segments.size
  | .peek contended index left => Searching b (.probing contended) index left
  | .acquire pass index left => Searching b pass index left
  | .append pass index left => Searching b pass index left
  | .release pass index left written => written = false →
    Searching b pass index left ∧ b.hasRoom index = false
  | .done written => written = false → ∀ j, b.hasRoom j = false

/-- At the beginning of a round every segment is still to come. -/
theorem Searching.round {b : SegmentedBuffer} {index : Nat} (pass : PlacePass)
    (hindex : index < b.segments.size) : Searching b pass index (b.segments.size - 1) where
  index_lt := hindex
  ahead := by
    intro _ j hroom
    obtain ⟨segment, hsegment, -⟩ := SegmentedBuffer.hasRoom_eq_true_iff.mp hroom
    obtain ⟨hj, -⟩ := Array.getElem?_eq_some_iff.mp hsegment
    exact SegmentedBuffer.exists_distance hindex hj

/-- A call that finds a segment full, or passes over its lock, goes on to look, or
knows that all are full. -/
theorem Searching.afterRefusal {b : SegmentedBuffer} {pass : PlacePass} {index left : Nat}
    (h : Searching b pass index left)
    (hrefused : pass ≠ .probing true → b.hasRoom index = false) :
    Knows b (PlaceCall.afterRefusal b.segments.size pass index left) := by
  have hnext : (index + 1) % b.segments.size < b.segments.size :=
    Nat.mod_lt _ (Nat.zero_lt_of_lt h.index_lt)
  have hnever (hpass : pass ≠ .probing true) {j : Nat} (hroom : b.hasRoom j = true) {i : Nat}
      (hi : (index + i) % b.segments.size = j) : i ≠ 0 := by
    rintro rfl
    rw [Nat.add_zero, Nat.mod_eq_of_lt h.index_lt] at hi
    rw [← hi, hrefused hpass] at hroom
    cases hroom
  cases left with
  | succ left =>
    have hsearching : Searching b pass ((index + 1) % b.segments.size) left := by
      refine ⟨hnext, fun hpass j hroom => ?_⟩
      obtain ⟨i, hi, hj⟩ := h.ahead hpass j hroom
      obtain ⟨i, rfl⟩ : ∃ k, i = k + 1 := ⟨i - 1, by have := hnever hpass hroom hj; omega⟩
      refine ⟨i, by omega, ?_⟩
      rw [Nat.mod_add_mod, ← hj]
      congr 1
      omega
    cases pass with
    | probing contended => exact hsearching
    | waiting => exact hsearching
  | zero =>
    have hfull (hpass : pass ≠ .probing true) (j : Nat) : b.hasRoom j = false := by
      rw [Bool.eq_false_iff]
      intro hroom
      obtain ⟨i, hi, hj⟩ := h.ahead hpass j hroom
      exact hnever hpass hroom hj (by omega)
    cases pass with
    | probing contended =>
      cases contended with
      | true => exact .round .waiting hnext
      | false => exact fun _ => hfull nofun
    | waiting => exact fun _ => hfull nofun

/-- What a call knows stays true while no segment gains room. -/
theorem Knows.mono {b b' : SegmentedBuffer} {phase : PlacePhase} (h : Knows b phase)
    (hsize : b'.segments.size = b.segments.size)
    (hroom : ∀ index, b'.hasRoom index = true → b.hasRoom index = true) : Knows b' phase := by
  have hfull {j : Nat} (hj : b.hasRoom j = false) : b'.hasRoom j = false := by
    rw [Bool.eq_false_iff] at hj ⊢
    exact fun h => hj (hroom j h)
  have hsearching {pass : PlacePass} {index left : Nat} (h : Searching b pass index left) :
      Searching b' pass index left := by
    refine ⟨hsize ▸ h.index_lt, fun hpass j hj => ?_⟩
    rw [hsize]
    exact h.ahead hpass j (hroom j hj)
  cases phase with
  | number => exact Nat.lt_of_lt_of_eq h hsize.symm
  | peek contended index left => exact hsearching h
  | acquire pass index left => exact hsearching h
  | append pass index left => exact hsearching h
  | release pass index left written =>
    exact fun hwritten => ⟨hsearching (h hwritten).1, hfull (h hwritten).2⟩
  | done written => exact fun hwritten j => hfull (h hwritten j)

/-- What a thread knows in the call that it is in. -/
def Thread.Knows (b : SegmentedBuffer) : Thread → Prop
  | .idle => True
  | .placing _ _ phase => Placing.Knows b phase

/-- A thread that makes a move knows what it needs to for the next. -/
theorem Thread.Move.knows {s s' : LockedSegments} {thread thread' : Thread} {event : Event}
    (h : Move s thread event s' thread') (hpos : 0 < s.buffer.segments.size)
    (hknows : thread.Knows s.buffer) : thread'.Knows s'.buffer := by
  cases h with
  | start order => exact hpos
  | number => exact Searching.round _ (Nat.mod_lt _ hpos)
  | room hroom => exact hknows
  | full hfull => exact Searching.afterRefusal hknows fun _ => hfull
  | pass hheld =>
    exact Searching.afterRefusal ⟨Searching.index_lt hknows, fun h => absurd rfl h⟩
      fun h => absurd rfl h
  | wait hheld => exact hknows
  | lock hfree => exact hknows
  | land hsegment hroom => exact nofun
  | refuse hfull => exact fun _ => ⟨hknows, hfull⟩
  | unlock => exact nofun
  | unlock_full =>
    obtain ⟨hsearching, hfull⟩ := hknows rfl
    exact hsearching.afterRefusal fun _ => hfull
  | returned => trivial

/-- Every thread knows what it needs to. -/
theorem Setup.knows (c : Setup) (schedule : Schedule) :
    0 < (c.system schedule).shared.buffer.segments.size ∧
      ∀ u, ((c.system schedule).threads u).Knows (c.system schedule).shared.buffer := by
  apply c.invariant (motive := fun _ s =>
    0 < s.shared.buffer.segments.size ∧ ∀ u, (s.threads u).Knows s.shared.buffer)
  · refine ⟨?_, fun u => trivial⟩
    change 0 < (SegmentedBuffer.new c.capacity c.count).segments.size
    rw [SegmentedBuffer.new, Array.size_ofFn]
    exact c.count_pos
  · rintro earlier t event s' ⟨hpos, hknows⟩ hmoves
    obtain ⟨hsize, hroom⟩ := hmoves.move.hasRoom
    refine ⟨hsize ▸ hpos, fun u => ?_⟩
    by_cases hu : u = t
    · subst hu
      exact hmoves.move.knows hpos (hknows u)
    · rw [hmoves.others u hu]
      have hbefore := hknows u
      cases hthread : (c.system earlier).threads u with
      | idle => trivial
      | placing order landed? phase =>
        rw [hthread] at hbefore
        exact Knows.mono hbefore hsize hroom

/-- A thread whose step returns is in a call that has come to its end. -/
theorem System.placing_of_returned {s : System} {t : Nat} {asked order : Order}
    {landed? : Option Nat} {written : Bool}
    (h : (s.step t asked).1 = .returned order landed? written) :
    s.threads t = .placing order landed? (.done written) := by
  have hmove := (s.moves_step t asked).move
  rw [h] at hmove
  generalize s.threads t = thread at hmove ⊢
  generalize (s.step t asked).2.threads t = thread' at hmove
  generalize (s.step t asked).2.shared = shared at hmove
  cases hmove
  rfl

/-- A call returns without having written only when every segment is full. -/
theorem Setup.full_of_returned (c : Setup) {schedule : Schedule} {t : Nat} {asked order : Order}
    {landed? : Option Nat}
    (h : ((c.system schedule).step t asked).1 = .returned order landed? false) (index : Nat) :
    (c.system schedule).shared.buffer.hasRoom index = false := by
  have hknows := (c.knows schedule).2 t
  rw [System.placing_of_returned h] at hknows
  exact hknows rfl index

end Placing

end OrderStore
