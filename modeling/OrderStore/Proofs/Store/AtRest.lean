import OrderStore.Proofs.Store.Segments

/-!
# Stores at rest

Between calls that are made one after another, no write is under way and every
segment holds a list of orders. Each call keeps it so, answers what the segments
determine, and changes them as its choice of a segment says.
-/

namespace OrderStore

namespace Store

/-- No write is under way, and calls get at least one attempt. -/
inductive Quiet : Store → Prop
  /-- A lock admits one call at a time. -/
  | exclusive (region : Region) : Quiet (.exclusive region)
  /-- Every write that has begun has finished. -/
  | optimistic {buffer : OptimisticBuffer} (stamps : buffer.finished = buffer.begun)
      (policy : buffer.policy.validate = .ok ()) : Quiet (.optimistic buffer)
  /-- A lock admits one writer at a time. -/
  | readWrite (region : Region) : Quiet (.readWrite region)
  /-- Each segment's lock admits one call at a time. -/
  | segmented (buffer : SegmentedBuffer) : Quiet (.segmented buffer)

/-! ## Lock-free stores -/

/-- A call on a lock-free buffer that is alone does to its region what it does to
any other, and leaves no write under way. -/
theorem perform_optimistic {b : OptimisticBuffer} (hstamps : b.finished = b.begun)
    (hpolicy : b.policy.validate = .ok ()) (call : Call) :
    ∃ b' : OptimisticBuffer, ((optimistic b).perform call).2 = optimistic b' ∧
      b'.region = b.region.after call ∧ b'.finished = b'.begun ∧ b'.policy = b.policy := by
  obtain ⟨hattempts, -⟩ := RetryPolicy.validate_eq_ok_iff.mp hpolicy
  have hwrite (r : Region) : (b.afterWrite r).finished = (b.afterWrite r).begun :=
    congrArg (· + 1) hstamps
  cases call with
  | append order =>
    have heq := congrArg Prod.snd (b.append_eq order hattempts)
    exact ⟨_, congrArg optimistic heq, rfl, hwrite _, rfl⟩
  | appendAll orders =>
    refine ⟨(b.appendAll orders).2, rfl, b.region_appendAll orders hattempts, ?_⟩
    rw [b.appendAll_eq orders hattempts]
    dsimp only
    split
    · exact ⟨hstamps, rfl⟩
    · exact ⟨hwrite _, rfl⟩
  | appendRing order =>
    refine ⟨(b.appendRing order).2, rfl, b.region_appendRing order hattempts, ?_⟩
    rw [b.appendRing_eq order hattempts]
    dsimp only
    split
    · exact ⟨hwrite _, rfl⟩
    · exact ⟨hstamps, rfl⟩
  | reset => exact ⟨_, rfl, rfl, hstamps, rfl⟩
  | forceReset => exact ⟨_, rfl, rfl, hstamps, rfl⟩
  | _ => exact ⟨_, rfl, rfl, hstamps, rfl⟩

/-! ## Segmented stores -/

/-- In a segment with room, making room before a batch changes nothing. -/
theorem modifyRegion_pushAll {b : SegmentedBuffer} {index : Nat} (orders : List Order)
    (hroom : b.hasRoom index = true) :
    (b.modifyRegion index fun region => (region.pushAll orders).2).segments.toList =
      b.segments.toList.modify index (·.receive orders) := by
  obtain ⟨segment, hsegment, hregion⟩ := SegmentedBuffer.hasRoom_eq_true_iff.mp hroom
  have hchange : b.modifyRegion index (fun region => (region.pushAll orders).2) =
      b.modifyRegion index fun region => (region.makeRoom.pushAll orders).2 :=
    SegmentedBuffer.modifyRegion_congr hsegment (by rw [Region.makeRoom_of_room hregion])
  rw [hchange, SegmentedBuffer.toList_modifyRegion]
  rfl

/-- A call on a segmented buffer that is alone appends to the segment it chooses,
and changes no other. -/
theorem segments_perform_segmented (b : SegmentedBuffer) (call : Call) :
    ((segmented b).perform call).2.segments = (segmented b).nextSegments call := by
  cases call with
  | append order =>
    change (b.append order).2.segments.toList = _
    simp only [nextSegments, segmentsAfterWrite, target?, SegmentedBuffer.target?, b.append_eq order]
    cases hindex : b.nextWithRoom? with
    | none => rfl
    | some index =>
      have hchange := modifyRegion_pushAll [order] (SegmentedBuffer.hasRoom_of_roomFrom? hindex)
      simp only [Region.pushAll_singleton] at hchange
      exact hchange
  | appendAll orders =>
    change (b.appendAll orders).2.segments.toList = _
    simp only [nextSegments, segmentsAfterWrite, target?, SegmentedBuffer.target?]
    cases hindex : b.nextForBatch? orders with
    | none => rw [SegmentedBuffer.appendAll_of_none hindex]; rfl
    | some index =>
      have hroom := SegmentedBuffer.hasRoom_of_nextForBatch? hindex
      obtain ⟨segment, hsegment, -⟩ := SegmentedBuffer.hasRoom_eq_true_iff.mp hroom
      rw [SegmentedBuffer.appendAll_of_some hindex hsegment]
      exact modifyRegion_pushAll orders hroom
  | appendRing order =>
    change (b.appendRing order).2.segments.toList = _
    simp only [nextSegments, segmentsAfterWrite, target?, SegmentedBuffer.target?, b.appendRing_eq order]
    cases hindex : b.nextForRing? with
    | none => rfl
    | some index =>
      dsimp only
      rw [SegmentedBuffer.toList_modifyRegion]
      simp only [← Region.pushAll_singleton]
      rfl
  | reset => exact Array.toList_map
  | forceReset => exact Array.toList_map
  | _ => rfl

/-- A segmented buffer keeps its size. -/
theorem capacity_perform_segmented (b : SegmentedBuffer) (call : Call) :
    ((segmented b).perform call).2.capacity = b.capacity := by
  cases call with
  | append order =>
    change (b.append order).2.capacity = _
    rw [b.append_eq order]
    cases b.nextWithRoom? <;> rfl
  | appendAll orders =>
    change (b.appendAll orders).2.capacity = _
    cases hindex : b.nextForBatch? orders with
    | none => rw [SegmentedBuffer.appendAll_of_none hindex]
    | some index =>
      obtain ⟨segment, hsegment, -⟩ := SegmentedBuffer.hasRoom_eq_true_iff.mp
        (SegmentedBuffer.hasRoom_of_nextForBatch? hindex)
      rw [SegmentedBuffer.appendAll_of_some hindex hsegment]
      rfl
  | appendRing order =>
    change (b.appendRing order).2.capacity = _
    rw [b.appendRing_eq order]
    cases b.nextForRing? <;> rfl
  | _ => rfl

/-- The numbers of the next write and of the next recycling. A store with a single
cursor has none. -/
def counters : Store → UInt64 × UInt64
  | segmented b => (b.writeCounter, b.recycleCursor)
  | _ => (0, 0)

/-- Those numbers after the next call. -/
def nextCounters (s : Store) (call : Call) : UInt64 × UInt64 :=
  match s, call with
  | segmented b, .append _ => (b.writeCounter + 1, b.recycleCursor)
  | segmented b, .appendRing _ => (b.writeCounter + 1, b.cursorAfterRing)
  | s, _ => s.counters

/-- A write of one record takes a number, and only recycling moves the other. -/
theorem counters_perform (s : Store) (call : Call) :
    (s.perform call).2.counters = s.nextCounters call := by
  cases s with
  | segmented b =>
    cases call with
    | append order =>
      change ((b.append order).2.writeCounter, (b.append order).2.recycleCursor) = _
      rw [b.append_eq order]
      cases b.nextWithRoom? <;> rfl
    | appendAll orders =>
      change ((b.appendAll orders).2.writeCounter, (b.appendAll orders).2.recycleCursor) = _
      cases hindex : b.nextForBatch? orders with
      | none => rw [SegmentedBuffer.appendAll_of_none hindex]; rfl
      | some index =>
        obtain ⟨segment, hsegment, -⟩ := SegmentedBuffer.hasRoom_eq_true_iff.mp
          (SegmentedBuffer.hasRoom_of_nextForBatch? hindex)
        rw [SegmentedBuffer.appendAll_of_some hindex hsegment]
        rfl
    | appendRing order =>
      change ((b.appendRing order).2.writeCounter, (b.appendRing order).2.recycleCursor) = _
      rw [b.appendRing_eq order]
      cases b.nextForRing? <;> rfl
    | _ => rfl
  | _ => cases call <;> rfl

/-! ## All stores -/

/-- A call that is made while nothing else happens leaves no write under way. -/
theorem Quiet.perform {s : Store} (h : s.Quiet) (call : Call) : (s.perform call).2.Quiet := by
  cases h with
  | exclusive region => cases call <;> exact .exclusive _
  | optimistic hstamps hpolicy =>
    obtain ⟨b', hperform, -, hstamps', hpolicy'⟩ := perform_optimistic hstamps hpolicy call
    rw [hperform]
    exact .optimistic hstamps' (hpolicy' ▸ hpolicy)
  | readWrite region => cases call <;> exact .readWrite _
  | segmented buffer => cases call <;> exact .segmented _

/-- What a call does to the segments depends only on the segment it chooses. -/
theorem segments_perform {s : Store} (h : s.Quiet) (call : Call) :
    (s.perform call).2.segments = s.nextSegments call := by
  cases h with
  | exclusive region =>
    rw [(Cursor.exclusive region).nextSegments_eq]
    cases call <;> rfl
  | optimistic hstamps hpolicy =>
    obtain ⟨b', hperform, hregion, -⟩ := perform_optimistic hstamps hpolicy call
    rw [(Cursor.optimistic _).nextSegments_eq, hperform, ← hregion]
    rfl
  | readWrite region =>
    rw [(Cursor.readWrite region).nextSegments_eq]
    cases call <;> rfl
  | segmented buffer => exact segments_perform_segmented buffer call

/-- The segments stay where they are. -/
theorem map_span_perform {s : Store} (h : s.Quiet) (call : Call) :
    (s.perform call).2.segments.map Segment.span = s.segments.map Segment.span := by
  rw [segments_perform h, map_span_nextSegments]

/-- No call adds or removes a segment. -/
theorem length_segments_perform {s : Store} (h : s.Quiet) (call : Call) :
    (s.perform call).2.segments.length = s.segments.length := by
  simpa using congrArg List.length (map_span_perform h call)

/-- A call that chooses a segment changes that one. -/
theorem segments_perform_of_target {s : Store} (h : s.Quiet) {call : Call} {index : Nat}
    (htarget : s.target? call = some index) :
    (s.perform call).2.segments = s.segments.modify index (·.receive call.orders) := by
  have hreset : call ≠ .reset := by
    rintro rfl
    cases s <;> cases htarget
  have hforce : call ≠ .forceReset := by
    rintro rfl
    cases s <;> cases htarget
  rw [segments_perform h, nextSegments_of_write s hreset hforce, segmentsAfterWrite, htarget]

/-- A call that chooses no segment changes none, unless it empties them all. -/
theorem segments_perform_of_none {s : Store} (h : s.Quiet) {call : Call} (hreset : call ≠ .reset)
    (hforce : call ≠ .forceReset) (htarget : s.target? call = none) :
    (s.perform call).2.segments = s.segments := by
  rw [segments_perform h, nextSegments_of_write s hreset hforce, segmentsAfterWrite, htarget]

/-- No call changes the size of a store. -/
theorem capacity_perform {s : Store} (h : s.Quiet) (call : Call) :
    (s.perform call).2.capacity = s.capacity := by
  cases h with
  | exclusive region =>
    refine Eq.trans ?_ (region.capacity_after call)
    cases call <;> rfl
  | @optimistic b hstamps hpolicy =>
    obtain ⟨b', hperform, hregion, -⟩ := perform_optimistic hstamps hpolicy call
    rw [hperform]
    calc b'.region.capacity = (b.region.after call).capacity := by rw [hregion]
      _ = b.region.capacity := b.region.capacity_after call
  | readWrite region =>
    refine Eq.trans ?_ (region.capacity_after call)
    cases call <;> rfl
  | segmented buffer => exact capacity_perform_segmented buffer call

/-- No call changes the strategy of a store. -/
theorem strategy_perform (s : Store) (call : Call) :
    (s.perform call).2.strategy = s.strategy := by
  cases s <;> cases call <;> rfl

theorem strategy_after (s : Store) (calls : List Call) :
    (s.after calls).strategy = s.strategy := by
  induction calls generalizing s with
  | nil => rfl
  | cons call calls ih => exact (ih _).trans (s.strategy_perform call)

theorem after_append (s : Store) (calls more : List Call) :
    s.after (calls ++ more) = (s.after calls).after more := by
  induction calls generalizing s with
  | nil => rfl
  | cons call calls ih => exact ih (s.perform call).2

theorem answers_of_append (s : Store) (calls more : List Call) :
    s.answers (calls ++ more) = s.answers calls ++ (s.after calls).answers more := by
  induction calls generalizing s with
  | nil => rfl
  | cons call calls ih => exact congrArg (_ :: ·) (ih (s.perform call).2)

/-- What every call keeps, a history of calls keeps. -/
theorem Quiet.after_eq {α : Type} {s : Store} (h : s.Quiet) (f : Store → α)
    (hkeep : ∀ {s : Store}, s.Quiet → ∀ call, f (s.perform call).2 = f s) (calls : List Call) :
    f (s.after calls) = f s := by
  induction calls generalizing s with
  | nil => rfl
  | cons call calls ih => exact (ih (h.perform call)).trans (hkeep h call)

theorem capacity_after {s : Store} (h : s.Quiet) (calls : List Call) :
    (s.after calls).capacity = s.capacity :=
  h.after_eq capacity capacity_perform calls

theorem map_span_after {s : Store} (h : s.Quiet) (calls : List Call) :
    (s.after calls).segments.map Segment.span = s.segments.map Segment.span :=
  h.after_eq (·.segments.map Segment.span) map_span_perform calls

theorem length_segments_after {s : Store} (h : s.Quiet) (calls : List Call) :
    (s.after calls).segments.length = s.segments.length :=
  h.after_eq (·.segments.length) length_segments_perform calls

/-- An append is successful if there is a segment for it. -/
theorem append_fst {s : Store} (h : s.Quiet) (order : Order) :
    (s.append order).1 = (s.target? (.append order)).isSome := by
  cases h with
  | exclusive region => exact ((Cursor.exclusive region).isSome_target? (.append order)).symm
  | @optimistic b hstamps hpolicy =>
    obtain ⟨hattempts, -⟩ := RetryPolicy.validate_eq_ok_iff.mp hpolicy
    rw [(Cursor.optimistic b).isSome_target?]
    exact congrArg Prod.fst (b.append_eq order hattempts)
  | readWrite region => exact ((Cursor.readWrite region).isSome_target? (.append order)).symm
  | segmented b =>
    change (b.append order).1 = b.nextWithRoom?.isSome
    rw [b.append_eq order]
    cases b.nextWithRoom? <;> rfl

/-- An overwriting append is successful if there is a segment for it. -/
theorem appendRing_fst {s : Store} (h : s.Quiet) (order : Order) :
    (s.appendRing order).1 = (s.target? (.appendRing order)).isSome := by
  cases h with
  | exclusive region =>
    rw [(Cursor.exclusive region).isSome_target?]
    exact region.hasRoom_makeRoom
  | @optimistic b hstamps hpolicy =>
    obtain ⟨hattempts, -⟩ := RetryPolicy.validate_eq_ok_iff.mp hpolicy
    rw [(Cursor.optimistic b).isSome_target?]
    exact (congrArg Prod.fst (b.appendRing_eq order hattempts)).trans b.region.hasRoom_makeRoom
  | readWrite region =>
    rw [(Cursor.readWrite region).isSome_target?]
    exact region.hasRoom_makeRoom
  | segmented b =>
    change (b.appendRing order).1 = b.nextForRing?.isSome
    rw [b.appendRing_eq order]
    cases b.nextForRing? <;> rfl

/-- A batch counts the orders that it writes. -/
theorem appendAll_fst {s : Store} (h : s.Quiet) (orders : List Order) :
    (s.appendAll orders).1 = (s.landings (.appendAll orders)).length := by
  cases h with
  | exclusive region =>
    exact ((Cursor.exclusive region).length_landings_appendAll orders).symm
  | @optimistic b hstamps hpolicy =>
    obtain ⟨hattempts, -⟩ := RetryPolicy.validate_eq_ok_iff.mp hpolicy
    rw [(Cursor.optimistic b).length_landings_appendAll]
    exact congrArg Prod.fst (b.appendAll_eq orders hattempts)
  | readWrite region =>
    exact ((Cursor.readWrite region).length_landings_appendAll orders).symm
  | segmented b =>
    change (b.appendAll orders).1 = _
    simp only [landings, target?, SegmentedBuffer.target?]
    cases hindex : b.nextForBatch? orders with
    | none => rw [SegmentedBuffer.appendAll_of_none hindex]; rfl
    | some index =>
      obtain ⟨segment, hsegment, hroom⟩ := SegmentedBuffer.hasRoom_eq_true_iff.mp
        (SegmentedBuffer.hasRoom_of_nextForBatch? hindex)
      have hget : (segmented b).segments[index]? = some segment := by
        rw [segments, Array.getElem?_toList, hsegment]
      rw [SegmentedBuffer.appendAll_of_some hindex hsegment, Option.bind_some, hget]
      dsimp only
      rw [Segment.length_landings, Region.pushAll_fst, Region.makeRoom_of_room hroom]
      rfl

/-! ## Stores at rest -/

/-- No write is under way, and every segment holds a list of orders. -/
structure AtRest (s : Store) : Prop where
  /-- No write is under way. -/
  quiet : s.Quiet
  /-- The records below each position are those of some orders. -/
  represents : ∀ segment ∈ s.segments, ∃ orders, segment.region.Represents orders

/-- A call that is made while nothing else happens leaves the store at rest. -/
theorem AtRest.perform {s : Store} (h : s.AtRest) (call : Call) : (s.perform call).2.AtRest := by
  refine ⟨h.quiet.perform call, ?_⟩
  rw [segments_perform h.quiet]
  intro segment hsegment
  obtain ⟨index, before, hbefore, hcases⟩ := exists_of_mem_nextSegments hsegment
  obtain ⟨orders, horders⟩ := h.represents before (List.mem_of_getElem? hbefore)
  rcases hcases with ⟨-, rfl | rfl⟩ | ⟨-, rfl⟩ | ⟨-, rfl⟩
  · exact ⟨[], horders.clear⟩
  · exact ⟨[], horders.rewind⟩
  · exact ⟨_, horders.makeRoom.pushAll call.orders⟩
  · exact ⟨orders, horders⟩

/-- A history of calls leaves the store at rest. -/
theorem AtRest.after {s : Store} (h : s.AtRest) (calls : List Call) : (s.after calls).AtRest := by
  induction calls generalizing s with
  | nil => exact h
  | cons call calls ih => exact ih (h.perform call)

/-- A store as it is before the first call, of any size, with limits under which
writes and reads get at least one attempt. -/
inductive IsNew : Store → Prop
  /-- A region under a lock. -/
  | exclusive (capacity : Nat) : IsNew (.exclusive (.new capacity))
  /-- A lock-free buffer. -/
  | optimistic (capacity : Nat) {policy : RetryPolicy} (attempts : 1 ≤ policy.maxAttempts)
      (retries : 1 ≤ policy.readRetries) : IsNew (.optimistic (.new capacity policy))
  /-- A region under a lock that readers share. -/
  | readWrite (capacity : Nat) : IsNew (.readWrite (.new capacity))
  /-- A buffer in any number of segments. -/
  | segmented (capacity : Nat) {count : Nat} (segments : 1 ≤ count) :
      IsNew (.segmented (.new capacity count))

/-- An empty store with any strategy, of any size. The number of segments and the
policy matter only to the strategies that have them. -/
def new (strategy : Strategy) (capacity count : Nat) (policy : RetryPolicy) : Store :=
  match strategy with
  | .exclusive => exclusive (.new capacity)
  | .optimistic => optimistic (.new capacity policy)
  | .readWrite => readWrite (.new capacity)
  | .segmented => segmented (.new capacity count)

/-- Each segment of an empty store is empty. -/
theorem region_eq_of_mem_new {strategy : Strategy} {capacity count : Nat} {policy : RetryPolicy}
    {segment : Segment} (h : segment ∈ (new strategy capacity count policy).segments) :
    segment.region = .new segment.size := by
  cases strategy with
  | segmented =>
    obtain ⟨i, rfl⟩ := Array.mem_ofFn.mp (Array.mem_toList_iff.mp h)
    rfl
  | _ =>
    obtain rfl := List.mem_singleton.mp h
    rfl

/-- A new store is the empty one of its strategy. -/
theorem IsNew.eq_new {s : Store} (h : s.IsNew) :
    ∃ strategy capacity count policy, s = new strategy capacity count policy := by
  cases h with
  | exclusive capacity => exact ⟨.exclusive, capacity, 0, {}, rfl⟩
  | @optimistic capacity policy => exact ⟨.optimistic, capacity, 0, policy, rfl⟩
  | readWrite capacity => exact ⟨.readWrite, capacity, 0, {}, rfl⟩
  | @segmented capacity count => exact ⟨.segmented, capacity, count, {}, rfl⟩

/-- Each segment of a new store is empty. -/
theorem IsNew.region_eq {s : Store} (h : s.IsNew) {segment : Segment}
    (hsegment : segment ∈ s.segments) : segment.region = .new segment.size := by
  obtain ⟨strategy, capacity, count, policy, rfl⟩ := h.eq_new
  exact region_eq_of_mem_new hsegment

theorem IsNew.segments_pos {s : Store} (h : s.IsNew) : 0 < s.segments.length := by
  cases h with
  | segmented capacity hcount =>
    rw [segments, SegmentedBuffer.new, Array.length_toList, Array.size_ofFn]
    exact hcount
  | _ => exact Nat.one_pos

/-- A new store is at rest. -/
theorem IsNew.atRest {s : Store} (h : s.IsNew) : s.AtRest := by
  refine ⟨?_, fun segment hsegment => ⟨[], h.region_eq hsegment ▸ .new segment.size⟩⟩
  cases h with
  | exclusive capacity => exact .exclusive _
  | optimistic capacity hattempts hretries =>
    rw [UInt32.le_iff_toNat_le] at hattempts hretries
    exact .optimistic rfl (RetryPolicy.validate_eq_ok_iff.mpr ⟨hattempts, hretries⟩)
  | readWrite capacity => exact .readWrite _
  | segmented capacity hcount => exact .segmented _

theorem isNew_new (strategy : Strategy) (capacity : Nat) {count : Nat} {policy : RetryPolicy}
    (hcount : 1 ≤ count) (hattempts : 1 ≤ policy.maxAttempts) (hretries : 1 ≤ policy.readRetries) :
    (new strategy capacity count policy).IsNew := by
  cases strategy with
  | exclusive => exact .exclusive capacity
  | optimistic => exact .optimistic capacity hattempts hretries
  | readWrite => exact .readWrite capacity
  | segmented => exact .segmented capacity hcount

/-- Beyond its end a region holds nothing, so that as the only segment it is read
at every offset. -/
theorem readIn_singleton {r : Region} {orders : List Order} (h : r.Represents orders)
    (offset : Nat) : Segment.readIn [⟨0, r⟩] offset = r.read offset := by
  by_cases hoffset : offset < r.capacity
  · have hcontains : Segment.contains ⟨0, r⟩ offset = true := by
      simpa [Segment.contains, Segment.size] using hoffset
    have hfind : [(⟨0, r⟩ : Segment)].find? (·.contains offset) = some ⟨0, r⟩ :=
      List.find?_cons_of_pos hcontains
    rw [Segment.readIn, hfind]
    rfl
  · have hcontains : ¬ Segment.contains ⟨0, r⟩ offset = true := by
      simpa [Segment.contains, Segment.size] using hoffset
    have hfind : [(⟨0, r⟩ : Segment)].find? (·.contains offset) = none :=
      List.find?_cons_of_neg hcontains
    rw [Segment.readIn, hfind, Region.read]
    have hposition := h.position_le
    have hwritten : r.tracker.isWritten offset = false := by
      have := recordSize_pos
      simp only [Tracker.isWritten, isRecordWithin, decide_eq_false_iff_not]
      omega
    rw [if_neg (by simp [hwritten])]

/-- A segmented buffer reads from its list of segments. -/
theorem read_segmented (b : SegmentedBuffer) (offset : Nat) :
    (segmented b).read offset = Segment.readIn b.segments.toList offset := by
  change b.read offset = Segment.readIn b.segments.toList offset
  unfold SegmentedBuffer.read SegmentedBuffer.segmentFor? Segment.readIn
  cases hfound : b.segments.find? (·.contains offset) with
  | none => rw [Array.find?_toList, hfound]
  | some segment => rw [Array.find?_toList, hfound]

/-- A read looks into the segment that owns the offset. -/
theorem AtRest.read_eq {s : Store} (h : s.AtRest) (offset : Nat) :
    s.read offset = Segment.readIn s.segments offset := by
  obtain ⟨hquiet, hrepresents⟩ := h
  cases hquiet with
  | exclusive region =>
    obtain ⟨orders, horders⟩ := hrepresents _ (List.mem_singleton_self _)
    exact (readIn_singleton horders offset).symm
  | @optimistic b hstamps hpolicy =>
    obtain ⟨orders, horders⟩ := hrepresents _ (List.mem_singleton_self _)
    obtain ⟨-, hretries⟩ := RetryPolicy.validate_eq_ok_iff.mp hpolicy
    exact (b.read_eq offset hretries hstamps).trans (readIn_singleton horders offset).symm
  | readWrite region =>
    obtain ⟨orders, horders⟩ := hrepresents _ (List.mem_singleton_self _)
    exact (readIn_singleton horders offset).symm
  | segmented b => exact read_segmented b offset

/-- Reading several offsets at once is reading each of them. -/
theorem readMany_eq_map (s : Store) (offsets : List Nat) :
    s.readMany offsets = offsets.map s.read := by
  cases s with
  | readWrite region => exact region.readMany_eq_map offsets
  | _ => rfl

theorem used_eq (s : Store) : s.used = Segment.usedIn s.segments := by
  cases s with
  | segmented b =>
    change b.used = Segment.usedIn b.segments.toList
    rw [SegmentedBuffer.used, Segment.usedIn, Array.foldr_toList]
  | _ => simp [Segment.usedIn, segments, used] <;> rfl

/-- What is not used is free. -/
theorem remaining_eq (s : Store) : s.remaining = s.capacity - s.used := by
  cases s <;> rfl

/-- What a call answers is determined by what can be read, by how much is used, and
by what a write answers if it is one. -/
theorem answer_congr {s t : Store} {call : Call} (hcapacity : s.capacity = t.capacity)
    (hused : s.used = t.used) (hread : ∀ offset, s.read offset = t.read offset)
    (happend : ∀ order, call = .append order → (s.append order).1 = (t.append order).1)
    (hall : ∀ orders, call = .appendAll orders → (s.appendAll orders).1 = (t.appendAll orders).1)
    (hring : ∀ order, call = .appendRing order → (s.appendRing order).1 = (t.appendRing order).1) :
    (s.perform call).1 = (t.perform call).1 := by
  have hremaining : s.remaining = t.remaining := by
    rw [remaining_eq, remaining_eq, hcapacity, hused]
  cases call with
  | append order => exact congrArg Answer.flag (happend order rfl)
  | appendAll orders => exact congrArg Answer.number (hall orders rfl)
  | appendRing order => exact congrArg Answer.flag (hring order rfl)
  | read offset => exact congrArg Answer.order (hread offset)
  | readMany offsets =>
    change Answer.orders (s.readMany offsets) = .orders (t.readMany offsets)
    rw [readMany_eq_map, readMany_eq_map, funext hread]
  | reset => rfl
  | forceReset => rfl
  | used => exact congrArg Answer.number hused
  | remaining => exact congrArg Answer.number hremaining
  | remainingRecords =>
    change Answer.number (s.remaining / recordSize) = .number (t.remaining / recordSize)
    rw [hremaining]
  | capacity => exact congrArg Answer.number hcapacity
  | status =>
    change Answer.status s.status = .status t.status
    rw [status, status, hused, hcapacity]
  | isNearFull threshold =>
    change Answer.flag (s.isNearFull threshold) = .flag (t.isNearFull threshold)
    rw [isNearFull, isNearFull, hused, hcapacity]

/-- While no write is under way, what a write answers is determined by whether there
is a segment for the call and by how many orders go there. -/
theorem perform_fst_congr {s t : Store} (hs : s.Quiet) (ht : t.Quiet) {call : Call}
    (hcapacity : s.capacity = t.capacity) (hused : s.used = t.used)
    (hread : ∀ offset, s.read offset = t.read offset)
    (htarget : (s.target? call).isSome = (t.target? call).isSome)
    (hlandings : (s.landings call).length = (t.landings call).length) :
    (s.perform call).1 = (t.perform call).1 := by
  apply answer_congr hcapacity hused hread
  · rintro order rfl
    rw [append_fst hs, append_fst ht, htarget]
  · rintro orders rfl
    rw [appendAll_fst hs, appendAll_fst ht, hlandings]
  · rintro order rfl
    rw [appendRing_fst hs, appendRing_fst ht, htarget]

end Store

end OrderStore
