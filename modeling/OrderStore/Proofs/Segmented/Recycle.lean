import OrderStore.Proofs.Segmented.Alone

/-!
# Which segment is overwritten, and which takes a batch

An overwriting write that finds no room goes to the next segment in recycling
order that could hold a record, and a batch goes to one segment chosen by its
free room. Both are stated as the choice of a segment and the change of its
region, so that nothing else about the two searches is needed later.
-/

namespace OrderStore

namespace SegmentedBuffer

/-! ## Recycling -/

/-- Whether segment `index` could hold a record if it were empty. -/
def canHold (b : SegmentedBuffer) (index : Nat) : Bool :=
  match b.segments[index]? with
  | none => false
  | some segment => segment.region.canHoldRecord

/-- The next segment in recycling order that could hold a record, if one of the
next `tries` segments could, and the recycling cursor after the search. -/
def seekVictim (b : SegmentedBuffer) : (tries : Nat) → (cursor : UInt64) → Option Nat × UInt64
  | 0, cursor => (none, cursor)
  | tries + 1, cursor =>
    let victim := b.wrapIndex cursor.toNat
    if b.canHold victim then (some victim, cursor + 1) else b.seekVictim tries (cursor + 1)

/-- How many segments that search looks at. -/
def seekLength (b : SegmentedBuffer) : (tries : Nat) → (cursor : UInt64) → Nat
  | 0, _ => 0
  | tries + 1, cursor =>
    if b.canHold (b.wrapIndex cursor.toNat) then 1 else b.seekLength tries (cursor + 1) + 1

/-- The buffer with another recycling cursor. -/
def withCursor (b : SegmentedBuffer) (recycleCursor : UInt64) : SegmentedBuffer :=
  { b with recycleCursor }

theorem canHold_eq_true_iff {b : SegmentedBuffer} {index : Nat} :
    b.canHold index = true ↔
      ∃ segment, b.segments[index]? = some segment ∧ segment.region.canHoldRecord = true := by
  unfold canHold
  cases b.segments[index]? <;> simp

theorem canHold_of_seekVictim {b : SegmentedBuffer} {tries found : Nat} {cursor : UInt64}
    (h : (b.seekVictim tries cursor).1 = some found) : b.canHold found = true := by
  induction tries generalizing cursor with
  | zero => cases h
  | succ tries ih =>
    simp only [seekVictim] at h
    split at h
    · next hhold => rwa [← Option.some.inj h]
    · exact ih h

/-- The search takes the segments in turn, as long as the cursor does not wrap, and
stops at the first that could hold a record. -/
theorem seekVictim_cases {b : SegmentedBuffer} {tries turn : Nat}
    (hwrap : turn + b.seekLength tries (.ofNat turn) ≤ 2 ^ 64) :
    (b.seekVictim tries (.ofNat turn)).2 = .ofNat (turn + b.seekLength tries (.ofNat turn)) ∧
      ∃ skipped, (∀ i < skipped, b.canHold (b.wrapIndex (turn + i)) = false) ∧
        ((b.seekVictim tries (.ofNat turn)).1 = some (b.wrapIndex (turn + skipped)) ∧
            b.seekLength tries (.ofNat turn) = skipped + 1 ∨
          (b.seekVictim tries (.ofNat turn)).1 = none ∧ skipped = tries ∧
            b.seekLength tries (.ofNat turn) = skipped) := by
  induction tries generalizing turn with
  | zero => exact ⟨rfl, 0, nofun, Or.inr ⟨rfl, rfl, rfl⟩⟩
  | succ tries ih =>
    have hpos : 0 < b.seekLength (tries + 1) (.ofNat turn) := by
      unfold seekLength
      split <;> omega
    have hturn : (UInt64.ofNat turn).toNat = turn := by
      rw [UInt64.toNat_ofNat', Nat.mod_eq_of_lt (by omega)]
    have hnext : UInt64.ofNat turn + 1 = .ofNat (turn + 1) := by
      rw [UInt64.ofNat_add]
      rfl
    have hlength : b.seekLength (tries + 1) (.ofNat turn) =
        if b.canHold (b.wrapIndex turn) then 1
        else b.seekLength tries (.ofNat (turn + 1)) + 1 := by
      rw [seekLength, hturn, hnext]
    have hseek : b.seekVictim (tries + 1) (.ofNat turn) =
        if b.canHold (b.wrapIndex turn) then (some (b.wrapIndex turn), .ofNat (turn + 1))
        else b.seekVictim tries (.ofNat (turn + 1)) := by
      rw [seekVictim, hturn, hnext]
    rw [hlength] at hwrap
    rw [hlength, hseek]
    by_cases hhold : b.canHold (b.wrapIndex turn) = true
    · rw [if_pos hhold, if_pos hhold]
      exact ⟨rfl, 0, nofun, Or.inl ⟨rfl, rfl⟩⟩
    · rw [if_neg hhold] at hwrap
      rw [if_neg hhold, if_neg hhold]
      have hrest : turn + 1 + b.seekLength tries (.ofNat (turn + 1)) ≤ 2 ^ 64 := by omega
      obtain ⟨hcursor, skipped, hskipped, hcases⟩ := ih hrest
      refine ⟨by rw [hcursor]; congr 1; omega, skipped + 1, ?_, ?_⟩
      · intro i hi
        cases i with
        | zero => exact Bool.eq_false_iff.mpr hhold
        | succ i =>
          rw [Nat.add_comm i 1, ← Nat.add_assoc]
          exact hskipped i (by omega)
      · rw [Nat.add_comm skipped 1, ← Nat.add_assoc]
        rcases hcases with ⟨hsome, hskip⟩ | ⟨hnone, hall, hskip⟩
        · exact Or.inl ⟨hsome, by omega⟩
        · exact Or.inr ⟨hnone, by omega, by omega⟩

/-- The search depends only on how many segments there are and which could hold a
record. -/
theorem seekVictim_congr (b b' : SegmentedBuffer) (hsize : b.segments.size = b'.segments.size)
    (hhold : ∀ index, b.canHold index = b'.canHold index) (tries : Nat) (cursor : UInt64) :
    b.seekVictim tries cursor = b'.seekVictim tries cursor := by
  induction tries generalizing cursor with
  | zero => rfl
  | succ tries ih => rw [seekVictim, seekVictim, wrapIndex, wrapIndex, hsize, hhold, ih]

/-- Recycling empties the segment that it finds, if that is full, and appends
to it. -/
theorem recycle_eq (b : SegmentedBuffer) (order : Order) (tries : Nat) :
    b.recycle order tries =
      match b.seekVictim tries b.recycleCursor with
      | (none, cursor) => (false, b.withCursor cursor)
      | (some victim, cursor) =>
        (true, (b.withCursor cursor).modifyRegion victim
          fun region => region.makeRoom.push (encode order)) := by
  induction tries generalizing b with
  | zero => rfl
  | succ tries ih =>
    let victim := b.wrapIndex b.recycleCursor.toNat
    let b' := b.withCursor (b.recycleCursor + 1)
    have hrecycle : b.recycle order (tries + 1) =
        if b.canHold victim then
          ((b'.modifyRegion victim (·.makeRoom)).hasRoom victim,
            (b'.modifyRegion victim (·.makeRoom)).modifyRegion victim (·.push (encode order)))
        else b'.recycle order tries := rfl
    have hseek : b.seekVictim (tries + 1) b.recycleCursor =
        if b.canHold victim then (some victim, b.recycleCursor + 1)
        else b.seekVictim tries (b.recycleCursor + 1) := rfl
    rw [hrecycle, hseek]
    by_cases hhold : b.canHold victim = true
    · obtain ⟨segment, hsegment, hregion⟩ := canHold_eq_true_iff.mp hhold
      have hroom : (b'.modifyRegion victim (·.makeRoom)).hasRoom victim = true := by
        have hself : b'.segments[victim]? = some segment := hsegment
        rw [hasRoom_modifyRegion_self _ hself, Region.hasRoom_makeRoom, hregion]
      rw [if_pos hhold, if_pos hhold, hroom, modifyRegion_modifyRegion]
      rfl
    · have hsearch : b'.seekVictim tries b'.recycleCursor =
          b.seekVictim tries (b.recycleCursor + 1) := seekVictim_congr b' b rfl (fun _ => rfl) ..
      rw [if_neg hhold, if_neg hhold, ih, hsearch]
      rfl

/-- The segment that the next overwriting write goes to when it is alone: the
next with room, or else the next to recycle. -/
def nextForRing? (b : SegmentedBuffer) : Option Nat :=
  match b.nextWithRoom? with
  | some index => some index
  | none => (b.seekVictim b.segments.size b.recycleCursor).1

/-- The recycling cursor after an overwriting write that is alone. -/
def cursorAfterRing (b : SegmentedBuffer) : UInt64 :=
  match b.nextWithRoom? with
  | some _ => b.recycleCursor
  | none => (b.seekVictim b.segments.size b.recycleCursor).2

/-- An overwriting append that is alone makes room in the segment it chooses and
appends to it. -/
theorem appendRing_eq (b : SegmentedBuffer) (order : Order) :
    b.appendRing order =
      match b.nextForRing? with
      | none => (false, b.counted.withCursor b.cursorAfterRing)
      | some index =>
        (true, (b.counted.withCursor b.cursorAfterRing).modifyRegion index
          fun region => region.makeRoom.push (encode order)) := by
  unfold appendRing nextForRing? cursorAfterRing
  rw [append_eq]
  cases hroom : b.nextWithRoom? with
  | some index =>
    obtain ⟨segment, hsegment, hregion⟩ := hasRoom_eq_true_iff.mp (hasRoom_of_roomFrom? hroom)
    have hmodify : b.counted.modifyRegion index (·.push (encode order)) =
        (b.counted.withCursor b.recycleCursor).modifyRegion index
          fun region => region.makeRoom.push (encode order) :=
      modifyRegion_congr hsegment (by simp only [Region.makeRoom_of_room hregion])
    simp only [hmodify]
  | none =>
    have hsearch : b.counted.seekVictim b.counted.segments.size b.counted.recycleCursor =
        b.seekVictim b.segments.size b.recycleCursor :=
      seekVictim_congr b.counted b rfl (fun _ => rfl) ..
    simp only [recycle_eq, hsearch]
    rcases b.seekVictim b.segments.size b.recycleCursor with ⟨_ | victim, cursor⟩ <;> rfl

/-! ## Batches -/

/-- The roomiest segment found so far is the given one or one of those looked
at, with the room that it has. -/
theorem roomiest_eq_some {best : Option (Nat × Nat)} {segments : List Segment}
    {index found room : Nat} (h : roomiest best index segments = some (found, room)) :
    best = some (found, room) ∨
      ∃ i segment, found = index + i ∧ segments[i]? = some segment ∧
        segment.region.tracker.remaining = room := by
  induction segments generalizing best index with
  | nil => exact Or.inl h
  | cons segment segments ih =>
    rw [roomiest] at h
    rcases ih h with hbest | ⟨i, other, hfound, hother, hroom⟩
    · split at hbest
      · obtain ⟨rfl, rfl⟩ := Prod.mk.inj (Option.some.inj hbest)
        exact Or.inr ⟨0, segment, rfl, rfl, rfl⟩
      · exact Or.inl hbest
    · exact Or.inr ⟨i + 1, other, by omega, hother, hroom⟩

/-- A segment chosen for a batch of at least one record has room. -/
theorem hasRoom_of_segmentForBatch? {b : SegmentedBuffer} {required index : Nat}
    (hrequired : recordSize ≤ required) (h : b.segmentForBatch? required = some index) :
    b.hasRoom index = true := by
  have hroom {segment : Segment} (hsegment : b.segments[index]? = some segment)
      (hremaining : recordSize ≤ segment.region.tracker.remaining) : b.hasRoom index = true := by
    rw [hasRoom_eq_true_iff]
    refine ⟨segment, hsegment, Region.hasRoom_iff.mpr ?_⟩
    have := recordSize_pos
    unfold Tracker.remaining at hremaining
    unfold Region.capacity
    omega
  unfold segmentForBatch? at h
  split at h
  · next found hfound =>
    obtain rfl := Option.some.inj h
    obtain ⟨hindex, hfits, _⟩ := Array.findIdx?_eq_some_iff_getElem.mp hfound
    apply hroom (Array.getElem?_eq_getElem hindex)
    have := of_decide_eq_true hfits
    omega
  · split at h
    · next found room hbest =>
      split at h
      · next hlarge =>
        obtain rfl := Option.some.inj h
        rcases roomiest_eq_some hbest with hnone | ⟨i, segment, hfound, hsegment, hremaining⟩
        · cases hnone
        · rw [Nat.zero_add] at hfound
          subst hfound
          rw [Array.getElem?_toList] at hsegment
          exact hroom hsegment (by omega)
      · cases h
    · cases h

/-- The segment that a batch goes to, if it has any records. -/
def nextForBatch? (b : SegmentedBuffer) (orders : List Order) : Option Nat :=
  if orders.isEmpty then none else b.segmentForBatch? (orders.length * recordSize)

theorem hasRoom_of_nextForBatch? {b : SegmentedBuffer} {orders : List Order} {index : Nat}
    (h : b.nextForBatch? orders = some index) : b.hasRoom index = true := by
  unfold nextForBatch? at h
  split at h
  · cases h
  · next hne =>
    apply hasRoom_of_segmentForBatch? _ h
    have hlength : 0 < orders.length := by
      rw [List.isEmpty_iff] at hne
      exact List.length_pos_iff.mpr hne
    exact Nat.le_mul_of_pos_left recordSize hlength

theorem appendAll_of_none {b : SegmentedBuffer} {orders : List Order}
    (h : b.nextForBatch? orders = none) : b.appendAll orders = (0, b) := by
  unfold nextForBatch? at h
  unfold appendAll
  split at h
  · next hempty => rw [if_pos hempty]
  · next hne => rw [if_neg hne, h]

/-- A batch is appended to the segment chosen for it, order by order. -/
theorem appendAll_of_some {b : SegmentedBuffer} {orders : List Order} {index : Nat}
    {segment : Segment} (h : b.nextForBatch? orders = some index)
    (hsegment : b.segments[index]? = some segment) :
    b.appendAll orders =
      ((segment.region.pushAll orders).1,
        b.modifyRegion index fun region => (region.pushAll orders).2) := by
  unfold nextForBatch? at h
  unfold appendAll
  split at h
  · cases h
  · next hne =>
    rw [if_neg hne, h]
    simp only [hsegment]
    congr 1
    unfold modifyRegion
    congr 1
    apply Array.ext_getElem?
    intro i
    rw [Array.getElem?_modify, Array.getElem?_setIfInBounds]
    by_cases hi : index = i
    · subst hi
      obtain ⟨hindex, hget⟩ := Array.getElem?_eq_some_iff.mp hsegment
      simp [hget, hindex]
    · simp [hi]

end SegmentedBuffer

end OrderStore
