import OrderStore.Proofs.Buffer.Build
import OrderStore.Proofs.Segmented.Reachable

/-!
# Segments in machine words

What a segmented buffer does, with the checks of a build. Every region of a buffer in a
reachable state holds whole records, and none is larger than the buffer, so that no
check fails.
-/

namespace OrderStore

/-- Computations that all give a result give them one after another. -/
theorem Fault.mapM_ok {α β : Type} {f : α → Except Fault β} {g : α → β} {xs : List α}
    (h : ∀ x ∈ xs, f x = .ok (g x)) : xs.mapM f = .ok (xs.map g) := by
  induction xs with
  | nil => rfl
  | cons x xs ih =>
    rw [List.mapM_cons, h x List.mem_cons_self, ok_bind,
      ih fun y hy => h y (List.mem_cons_of_mem x hy), ok_bind, List.map_cons]
    rfl

/-- A step keeps the block of an append. -/
theorem PlaceCall.block_step (s : LockedSegments) (p : PlaceCall) :
    (p.step s).2.block = p.block := by
  obtain ⟨block, phase⟩ := p
  cases phase with
  | acquire pass index left =>
    simp only [step]
    split
    · cases pass <;> rfl
    · rfl
  | _ => rfl

namespace Build

/-- Segment `i` of an empty buffer of `capacity` bytes in `count` segments. -/
def segment (build : Build) (capacity count i : Nat) : Except Fault Segment := do
  let size ← build.word (capacity / count / recordSize * recordSize)
  let start ← build.word (i * size)
  if i + 1 = count then
    let rest ← build.difference capacity start
    .ok (.new start rest)
  else .ok (.new start size)

/-- An empty buffer of `capacity` bytes in `count` segments. -/
def segmentedNew (build : Build) (capacity count : Nat) : Except Fault SegmentedBuffer := do
  let segments ← (List.range count).mapM (build.segment capacity count)
  .ok ⟨capacity, segments.toArray, 0, 0⟩

/-- Bytes written in all segments. -/
def usedIn (build : Build) (total : Nat) : List Segment → Except Fault Nat
  | [] => .ok total
  | segment :: segments => do
    let total ← build.word (total + segment.region.used)
    build.usedIn total segments

/-- Whether segment `index` has room for a record. -/
def hasRoomIn (build : Build) (b : SegmentedBuffer) (index : Nat) : Except Fault Bool :=
  match b.segments[index]? with
  | none => .ok false
  | some segment => build.hasRoomAfter segment.region.tracker segment.region.tracker.position

/-- Appends a record to segment `index` if there is room; answers whether there was. -/
def pushIn (build : Build) (b : SegmentedBuffer) (index : Nat) (block : Block) :
    Except Fault (Bool × SegmentedBuffer) :=
  match b.segments[index]? with
  | none => .ok (false, b)
  | some segment => do
    let (written, region) ← build.push segment.region block
    .ok (written, b.modifyRegion index fun _ => region)

/-- One step of an append on the shared state. -/
def placeStep (build : Build) (s : LockedSegments) (p : PlaceCall) :
    Except Fault (LockedSegments × PlaceCall) :=
  match p.phase with
  | .peek contended index left => do
    let room ← build.hasRoomIn s.buffer index
    let phase :=
      if room then .acquire (.probing contended) index left
      else PlaceCall.afterRefusal s.buffer.segments.size (.probing contended) index left
    .ok (s, { p with phase })
  | .append pass index left => do
    let (written, buffer) ← build.pushIn s.buffer index p.block
    .ok ({ s with buffer }, { p with phase := .release pass index left written })
  | _ => .ok (p.step s)

/-- Lets an append take up to `steps` steps on its own; answers whether it wrote its
record. -/
def place (build : Build) :
    (steps : Nat) → LockedSegments → PlaceCall → Except Fault (Bool × SegmentedBuffer)
  | 0, s, p => .ok (p.run 0 s)
  | steps + 1, s, p =>
    match p.phase with
    | .done written => .ok (written, s.buffer)
    | _ => do
      let (s, p) ← build.placeStep s p
      build.place steps s p

/-- Appends an order to the next segment with room. -/
def segmentedAppend (build : Build) (b : SegmentedBuffer) (order : Order) :
    Except Fault (Bool × SegmentedBuffer) :=
  build.place b.placeSteps ⟨b, []⟩ ⟨encode order, .number⟩

/-- Appends an order to the next segment in recycling order that can hold one, trying at
most `tries`. -/
def recycle (build : Build) (b : SegmentedBuffer) (order : Order) :
    (tries : Nat) → Except Fault (Bool × SegmentedBuffer)
  | 0 => .ok (false, b)
  | tries + 1 =>
    let victim := b.wrapIndex b.recycleCursor.toNat
    let b' := b.withCursor (b.recycleCursor + 1)
    match b.segments[victim]? with
    | none => build.recycle b' order tries
    | some segment => do
      if ← build.hasRoomAfter segment.region.tracker 0 then
        let (written, region) ← build.pushOver segment.region (encode order)
        .ok (written, b'.modifyRegion victim fun _ => region)
      else build.recycle b' order tries

/-- Appends an order, recycling a segment if all are full. -/
def segmentedAppendRing (build : Build) (b : SegmentedBuffer) (order : Order) :
    Except Fault (Bool × SegmentedBuffer) := do
  let (written, b) ← build.segmentedAppend b order
  if written then .ok (true, b) else build.recycle b order b.segments.size

/-- Appends orders to one segment until it is full; counts those written. The room that
all would take is at most the largest word. -/
def segmentedAppendAll (build : Build) (b : SegmentedBuffer) (orders : List Order) :
    Except Fault (Nat × SegmentedBuffer) :=
  if orders.isEmpty then .ok (0, b)
  else
    match b.segmentForBatch? (min (orders.length * recordSize) (2 ^ 64 - 1)) with
    | none => .ok (0, b)
    | some index =>
      match b.segments[index]? with
      | none => .ok (0, b)
      | some ⟨start, region⟩ => do
        let (count, region) ← build.pushAll region orders
        .ok (count, { b with segments := b.segments.setIfInBounds index ⟨start, region⟩ })

/-! ## Checks that do not fail -/

variable (build : Build) {capacity count : Nat}

theorem segment_eq (hsmall : capacity < 2 ^ 63) {i : Nat} (hi : i < count) :
    build.segment capacity count i =
      .ok (.new (i * SegmentedBuffer.segmentSize capacity count)
        (if i + 1 = count then capacity - i * SegmentedBuffer.segmentSize capacity count
        else SegmentedBuffer.segmentSize capacity count)) := by
  have hfits := SegmentedBuffer.mul_segmentSize_le capacity count
  have hstart := Nat.mul_le_mul_right (SegmentedBuffer.segmentSize capacity count) (Nat.le_of_lt hi)
  have hsize : SegmentedBuffer.segmentSize capacity count ≤
      count * SegmentedBuffer.segmentSize capacity count :=
    Nat.le_mul_of_pos_left _ (Nat.zero_lt_of_lt hi)
  have hshare : capacity / count / recordSize * recordSize =
      SegmentedBuffer.segmentSize capacity count := rfl
  rw [segment, hshare, build.word_eq (by omega), Fault.ok_bind, build.word_eq (by omega),
    Fault.ok_bind]
  split
  · rw [build.difference_eq (by omega) (by omega), Fault.ok_bind]
  · rfl

/-- No check fails when a buffer is made. -/
theorem segmentedNew_eq (hsmall : capacity < 2 ^ 63) (count : Nat) :
    build.segmentedNew capacity count = .ok (.new capacity count) := by
  rw [segmentedNew, Fault.mapM_ok fun i hi => build.segment_eq hsmall (List.mem_range.mp hi),
    Fault.ok_bind]
  generalize hsegments : (List.range count).map _ = segments
  have hnew : segments.toArray = (SegmentedBuffer.new capacity count).segments := by
    apply Array.toList_inj.mp
    apply List.ext_getElem?
    intro i
    rw [SegmentedBuffer.getElem?_segments_new, ← hsegments, List.getElem?_map]
    split
    · next hi => rw [List.getElem?_range hi, Option.map_some]
    · next hi =>
      rw [List.getElem?_eq_none (by rw [List.length_range]; omega), Option.map_none]
  rw [hnew]
  rfl

theorem usedIn_eq (total : Nat) {limit : Nat} (hlimit : limit < 2 ^ 64) (segments : List Segment)
    (h : total + Segment.usedIn segments ≤ limit) :
    build.usedIn total segments = .ok (total + Segment.usedIn segments) := by
  induction segments generalizing total with
  | nil => rfl
  | cons segment segments ih =>
    have hcons : Segment.usedIn (segment :: segments) =
        segment.region.used + Segment.usedIn segments := rfl
    rw [hcons, ← Nat.add_assoc] at h ⊢
    rw [usedIn, build.word_eq (by omega), Fault.ok_bind, ih _ h]

variable {b : SegmentedBuffer}

/-- The segments of a reachable buffer hold whole records, and are not too large. -/
theorem region_of_reachable (h : b.Reachable capacity count) (hcount : 1 ≤ count)
    (hsmall : capacity < 2 ^ 63) {index : Nat} {segment : Segment}
    (hsegment : b.segments[index]? = some segment) :
    (∃ orders, segment.region.Represents orders) ∧ segment.region.capacity < 2 ^ 63 := by
  have hmem : segment ∈ b.segments.toList := Array.mem_toList_iff.mpr (Array.mem_of_getElem? hsegment)
  obtain ⟨log, hrecords⟩ := h.exists_records hcount
  exact ⟨hrecords.atRest.represents segment hmem, Nat.lt_of_le_of_lt (h.size_le hmem) hsmall⟩

section Reachable

variable (h : b.Reachable capacity count) (hcount : 1 ≤ count) (hsmall : capacity < 2 ^ 63)

include h hcount hsmall

theorem hasRoomIn_eq (index : Nat) : build.hasRoomIn b index = .ok (b.hasRoom index) := by
  unfold hasRoomIn SegmentedBuffer.hasRoom
  cases hsegment : b.segments[index]? with
  | none => rfl
  | some segment =>
    obtain ⟨⟨orders, horders⟩, hregion⟩ := region_of_reachable h hcount hsmall hsegment
    exact build.hasRoom_eq horders hregion

theorem pushIn_eq (index : Nat) (block : Block) :
    build.pushIn b index block = .ok (b.hasRoom index, b.modifyRegion index (·.push block)) := by
  unfold pushIn
  cases hsegment : b.segments[index]? with
  | none =>
    have hfull : b.hasRoom index = false := by rw [SegmentedBuffer.hasRoom, hsegment]
    rw [hfull, SegmentedBuffer.modifyRegion_push_of_full block hfull]
  | some segment =>
    obtain ⟨⟨orders, horders⟩, hregion⟩ := region_of_reachable h hcount hsmall hsegment
    have hroom : b.hasRoom index = segment.region.hasRoom := by
      rw [SegmentedBuffer.hasRoom, hsegment]
    have hmodify : b.modifyRegion index (fun _ => segment.region.push block) =
        b.modifyRegion index (·.push block) := SegmentedBuffer.modifyRegion_congr hsegment rfl
    dsimp only
    rw [build.push_eq horders hregion, Fault.ok_bind, hroom, ← hmodify]

end Reachable

/-- No check fails in a step of an append. -/
theorem placeStep_eq {s : LockedSegments} {p : PlaceCall}
    (h : s.buffer.Reachable capacity count) (hcount : 1 ≤ count) (hsmall : capacity < 2 ^ 63) :
    build.placeStep s p = .ok (p.step s) := by
  obtain ⟨block, phase⟩ := p
  cases phase with
  | peek contended index left =>
    simp only [placeStep]
    rw [build.hasRoomIn_eq h hcount hsmall]
    rfl
  | append pass index left =>
    simp only [placeStep]
    rw [build.pushIn_eq h hcount hsmall]
    rfl
  | _ => rfl

/-- An append that is under way takes its next step and goes on. -/
theorem place_succ {s : LockedSegments} {p : PlaceCall}
    (hbusy : ∀ written, p.phase ≠ .done written) (steps : Nat) :
    build.place (steps + 1) s p = (do
      let (s, p) ← build.placeStep s p
      build.place steps s p) := by
  obtain ⟨block, phase⟩ := p
  cases phase with
  | done written => exact absurd rfl (hbusy written)
  | _ => rfl

/-- No check fails in an append. -/
theorem place_eq {s : LockedSegments} {p : PlaceCall} {order : Order}
    (h : s.buffer.Reachable capacity count) (hcount : 1 ≤ count) (hsmall : capacity < 2 ^ 63)
    (hblock : p.block = encode order) (steps : Nat) :
    build.place steps s p = .ok (p.run steps s) := by
  induction steps generalizing s p with
  | zero => rfl
  | succ steps ih =>
    by_cases hdone : ∃ written, p.phase = .done written
    · obtain ⟨written, hdone⟩ := hdone
      obtain ⟨block, phase⟩ := p
      obtain rfl : phase = .done written := hdone
      rfl
    · have hbusy (written : Bool) : p.phase ≠ .done written := fun hphase => hdone ⟨written, hphase⟩
      have hreachable : (p.step s).1.buffer.Reachable capacity count := h.of_step hblock
      have hkept : (p.step s).2.block = encode order := (p.block_step s).trans hblock
      rw [build.place_succ hbusy, build.placeStep_eq h hcount hsmall, Fault.ok_bind,
        PlaceCall.run_succ steps rfl hbusy]
      exact ih hreachable hkept

/-- Whether what a batch takes is cut to the largest word is nothing to the choice. -/
theorem segmentForBatch?_min (h : b.Reachable capacity count) (hsmall : capacity < 2 ^ 63)
    (required : Nat) :
    b.segmentForBatch? (min required (2 ^ 64 - 1)) = b.segmentForBatch? required := by
  have hfits (segment : Segment) (hsegment : segment ∈ b.segments) :
      decide (min required (2 ^ 64 - 1) ≤ segment.region.tracker.remaining) =
        decide (required ≤ segment.region.tracker.remaining) := by
    have hsize : segment.region.tracker.remaining ≤ segment.size := Nat.sub_le ..
    have hle := h.size_le (Array.mem_toList_iff.mpr hsegment)
    rw [decide_eq_decide]
    omega
  have hfirst : b.segments.findIdx? (min required (2 ^ 64 - 1) ≤ ·.region.tracker.remaining) =
      b.segments.findIdx? (required ≤ ·.region.tracker.remaining) := by
    apply Option.ext
    intro index
    rw [Array.findIdx?_eq_some_iff_getElem, Array.findIdx?_eq_some_iff_getElem]
    refine exists_congr fun hindex => ?_
    rw [hfits _ (Array.getElem_mem hindex)]
    refine and_congr_right fun _ => forall_congr' fun j => forall_congr' fun hj => ?_
    rw [hfits _ (Array.getElem_mem _)]
  rw [SegmentedBuffer.segmentForBatch?, SegmentedBuffer.segmentForBatch?, hfirst]

section Reachable

variable (h : b.Reachable capacity count) (hcount : 1 ≤ count) (hsmall : capacity < 2 ^ 63)

include h hcount hsmall

theorem segmentedAppend_eq (order : Order) :
    build.segmentedAppend b order = .ok (b.append order) :=
  build.place_eq (s := ⟨b, []⟩) h hcount hsmall rfl b.placeSteps

/-- No check fails when a segment is recycled. -/
theorem recycle_eq (order : Order) (tries : Nat) :
    build.recycle b order tries = .ok (b.recycle order tries) := by
  induction tries generalizing b with
  | zero => rfl
  | succ tries ih =>
    let victim := b.wrapIndex b.recycleCursor.toNat
    let b' := b.withCursor (b.recycleCursor + 1)
    have hrest := ih (h.count b.writeCounter (b.recycleCursor + 1))
    have hrecycle : b.recycle order (tries + 1) =
        if b.canHold victim then
          ((b'.modifyRegion victim (·.makeRoom)).hasRoom victim,
            (b'.modifyRegion victim (·.makeRoom)).modifyRegion victim (·.push (encode order)))
        else b'.recycle order tries := rfl
    have hbuild : build.recycle b order (tries + 1) =
        match b.segments[victim]? with
        | none => build.recycle b' order tries
        | some segment => (do
            if ← build.hasRoomAfter segment.region.tracker 0 then
              let (written, region) ← build.pushOver segment.region (encode order)
              .ok (written, b'.modifyRegion victim fun _ => region)
            else build.recycle b' order tries) := rfl
    rw [hrecycle, hbuild, SegmentedBuffer.canHold]
    cases hsegment : b.segments[victim]? with
    | none => exact hrest
    | some segment =>
      obtain ⟨⟨orders, horders⟩, hregion⟩ := region_of_reachable h hcount hsmall hsegment
      dsimp only
      rw [build.canHoldRecord_eq, Fault.ok_bind]
      by_cases hhold : segment.region.canHoldRecord = true
      · have hself : b'.segments[victim]? = some segment := hsegment
        have hmodify : b'.modifyRegion victim
              (fun _ => segment.region.makeRoom.push (encode order)) =
            b'.modifyRegion victim fun region => region.makeRoom.push (encode order) :=
          SegmentedBuffer.modifyRegion_congr hself rfl
        rw [if_pos hhold, if_pos hhold, build.pushOver_eq horders hregion, Fault.ok_bind,
          SegmentedBuffer.hasRoom_modifyRegion_self _ hself,
          SegmentedBuffer.modifyRegion_modifyRegion]
        exact congrArg (fun buffer => Except.ok (segment.region.makeRoom.hasRoom, buffer)) hmodify
      · rw [if_neg hhold, if_neg hhold]
        exact hrest

theorem segmentedAppendRing_eq (order : Order) :
    build.segmentedAppendRing b order = .ok (b.appendRing order) := by
  have hafter : (b.append order).2.Reachable capacity count := h.perform (.append order) rfl
  rw [segmentedAppendRing, build.segmentedAppend_eq h hcount hsmall, Fault.ok_bind,
    SegmentedBuffer.appendRing]
  generalize b.append order = result at hafter
  obtain ⟨written, b'⟩ := result
  cases written with
  | true => rfl
  | false => exact build.recycle_eq hafter hcount hsmall order b'.segments.size

theorem segmentedAppendAll_eq (orders : List Order) :
    build.segmentedAppendAll b orders = .ok (b.appendAll orders) := by
  unfold segmentedAppendAll SegmentedBuffer.appendAll
  rw [segmentForBatch?_min h hsmall]
  by_cases hempty : orders.isEmpty = true
  · rw [if_pos hempty, if_pos hempty]
  · rw [if_neg hempty, if_neg hempty]
    cases b.segmentForBatch? (orders.length * recordSize) with
    | none => rfl
    | some index =>
      dsimp only
      cases hsegment : b.segments[index]? with
      | none => rfl
      | some segment =>
        obtain ⟨⟨held, hheld⟩, hregion⟩ := region_of_reachable h hcount hsmall hsegment
        dsimp only
        rw [build.pushAll_eq hheld hregion, Fault.ok_bind]

end Reachable

end Build

end OrderStore
