import OrderStore.Proofs.Buffer.Region
import OrderStore.Segmented.Recycle

/-!
# Segmented calls that are alone

A write that takes all its steps while nothing else happens never meets a held
lock. It goes round the segments once and appends to the first that has room.
Recycling and batches, too, come down to choosing one segment and changing its
region, and they choose a segment that can take what they write.
-/

namespace OrderStore

namespace SegmentedBuffer

/-! ## Changing one region -/

theorem toList_modifyRegion (b : SegmentedBuffer) (index : Nat) (change : Region → Region) :
    (b.modifyRegion index change).segments.toList =
      b.segments.toList.modify index fun segment =>
        { segment with region := change segment.region } := by
  simp [modifyRegion]

/-- Two changes of one region are one change. -/
theorem modifyRegion_modifyRegion (b : SegmentedBuffer) (index : Nat) (f g : Region → Region) :
    (b.modifyRegion index f).modifyRegion index g = b.modifyRegion index (g ∘ f) := by
  unfold modifyRegion
  congr 1
  apply Array.ext'
  rw [Array.toList_modify, Array.toList_modify, Array.toList_modify, List.modify_modify_eq]
  rfl

/-- Only what a change does to the region that it meets matters. -/
theorem modifyRegion_congr {b : SegmentedBuffer} {index : Nat} {segment : Segment}
    {f g : Region → Region} (hsegment : b.segments[index]? = some segment)
    (hchange : f segment.region = g segment.region) :
    b.modifyRegion index f = b.modifyRegion index g := by
  unfold modifyRegion
  congr 1
  apply Array.ext_getElem?
  intro i
  rw [Array.getElem?_modify, Array.getElem?_modify]
  split
  · next hi =>
    subst hi
    simp only [hsegment, Option.map_some, hchange]
  · rfl

theorem hasRoom_eq_true_iff {b : SegmentedBuffer} {index : Nat} :
    b.hasRoom index = true ↔
      ∃ segment, b.segments[index]? = some segment ∧ segment.region.hasRoom = true := by
  unfold hasRoom
  cases b.segments[index]? <;> simp

theorem forall_hasRoom_eq_false_iff {b : SegmentedBuffer} :
    (∀ index, b.hasRoom index = false) ↔
      ∀ segment ∈ b.segments, segment.region.hasRoom = false := by
  constructor
  · intro h segment hsegment
    obtain ⟨index, hindex⟩ := Array.mem_iff_getElem?.mp hsegment
    have hroom := h index
    rwa [hasRoom, hindex] at hroom
  · intro h index
    rw [Bool.eq_false_iff, ne_eq, hasRoom_eq_true_iff]
    rintro ⟨segment, hsegment, hroom⟩
    rw [h segment (Array.mem_of_getElem? hsegment)] at hroom
    cases hroom

theorem hasRoom_modifyRegion_self {b : SegmentedBuffer} {index : Nat} {segment : Segment}
    (change : Region → Region) (hsegment : b.segments[index]? = some segment) :
    (b.modifyRegion index change).hasRoom index = (change segment.region).hasRoom := by
  have hmodify : (b.modifyRegion index change).segments[index]? =
      some { segment with region := change segment.region } := by
    simp [modifyRegion, Array.getElem?_modify, hsegment]
  simp only [hasRoom, hmodify]

/-- A push to a segment without room changes nothing. -/
theorem modifyRegion_push_of_full {b : SegmentedBuffer} {index : Nat} (block : Block)
    (hfull : b.hasRoom index = false) : b.modifyRegion index (·.push block) = b := by
  have hsegments : (b.modifyRegion index (·.push block)).segments = b.segments := by
    apply Array.ext_getElem?
    intro i
    rw [modifyRegion, Array.getElem?_modify]
    split
    · next hi =>
      subst hi
      cases hsegment : b.segments[index]? with
      | none => rfl
      | some segment =>
        have hregion : segment.region.hasRoom = false := by
          rwa [hasRoom, hsegment] at hfull
        rw [Option.map_some, Region.push_of_full block hregion]
    · rfl
  calc b.modifyRegion index (·.push block)
      = { b with segments := (b.modifyRegion index (·.push block)).segments } := rfl
    _ = b := by rw [hsegments]

/-! ## Looking for room -/

/-- The first segment with room, going round from number `index` over `left`
more segments. -/
def roomFrom? (b : SegmentedBuffer) (index : Nat) : (left : Nat) → Option Nat
  | 0 => if b.hasRoom index then some index else none
  | left + 1 =>
    if b.hasRoom index then some index
    else b.roomFrom? ((index + 1) % b.segments.size) left

/-- The segment that the next append goes to when it is alone. -/
def nextWithRoom? (b : SegmentedBuffer) : Option Nat :=
  b.roomFrom? (b.wrapIndex b.writeCounter.toNat) (b.segments.size - 1)

theorem hasRoom_of_roomFrom? {b : SegmentedBuffer} {index left found : Nat}
    (h : b.roomFrom? index left = some found) : b.hasRoom found = true := by
  induction left generalizing index with
  | zero =>
    unfold roomFrom? at h
    split at h
    · next hroom => rwa [← Option.some.inj h]
    · cases h
  | succ left ih =>
    unfold roomFrom? at h
    split at h
    · next hroom => rwa [← Option.some.inj h]
    · exact ih h

theorem roomFrom?_of_room {b : SegmentedBuffer} {index : Nat} (left : Nat)
    (hroom : b.hasRoom index = true) : b.roomFrom? index left = some index := by
  cases left <;> rw [roomFrom?, if_pos hroom]

/-- The search fails only if none of the segments it goes over has room. -/
theorem roomFrom?_eq_none_iff {b : SegmentedBuffer} {index left : Nat}
    (hindex : index < b.segments.size) :
    b.roomFrom? index left = none ↔
      ∀ i ≤ left, b.hasRoom ((index + i) % b.segments.size) = false := by
  induction left generalizing index with
  | zero => simp [roomFrom?, Nat.mod_eq_of_lt hindex]
  | succ left ih =>
    have hpos : 0 < b.segments.size := by omega
    unfold roomFrom?
    by_cases hroom : b.hasRoom index = true
    · rw [if_pos hroom]
      simp only [reduceCtorEq, false_iff]
      intro h
      have hfirst := h 0 (Nat.zero_le _)
      rw [Nat.add_zero, Nat.mod_eq_of_lt hindex, hroom] at hfirst
      cases hfirst
    · rw [if_neg hroom, ih (Nat.mod_lt _ hpos)]
      have hshift (i : Nat) : ((index + 1) % b.segments.size + i) % b.segments.size =
          (index + (i + 1)) % b.segments.size := by
        rw [Nat.mod_add_mod]
        congr 1
        omega
      constructor
      · intro h i hi
        cases i with
        | zero =>
          rw [Nat.add_zero, Nat.mod_eq_of_lt hindex]
          exact Bool.eq_false_iff.mpr hroom
        | succ i =>
          rw [← hshift]
          exact h i (by omega)
      · intro h i hi
        rw [hshift]
        exact h (i + 1) (by omega)

/-- Going round from one segment comes to any other. -/
theorem exists_distance {b : SegmentedBuffer} {first index : Nat}
    (hfirst : first < b.segments.size) (hindex : index < b.segments.size) :
    ∃ i ≤ b.segments.size - 1, (first + i) % b.segments.size = index := by
  refine ⟨(index + (b.segments.size - first)) % b.segments.size,
    Nat.le_sub_one_of_lt (Nat.mod_lt _ (Nat.zero_lt_of_lt hfirst)), ?_⟩
  have hsum : first + (index + (b.segments.size - first)) = index + b.segments.size := by omega
  rw [Nat.add_mod_mod, hsum, Nat.add_mod_right, Nat.mod_eq_of_lt hindex]

/-- Going round once finds room if any segment has it. -/
theorem nextWithRoom?_eq_none_iff {b : SegmentedBuffer} :
    b.nextWithRoom? = none ↔ ∀ index, b.hasRoom index = false := by
  by_cases hpos : 0 < b.segments.size
  · have hfirst : b.wrapIndex b.writeCounter.toNat < b.segments.size := Nat.mod_lt _ hpos
    rw [nextWithRoom?, roomFrom?_eq_none_iff hfirst]
    generalize b.wrapIndex b.writeCounter.toNat = first at hfirst
    constructor
    · intro h index
      by_cases hindex : index < b.segments.size
      · obtain ⟨i, hi, hround⟩ := exists_distance hfirst hindex
        rw [← hround]
        exact h i hi
      · rw [hasRoom, Array.getElem?_eq_none (by omega)]
    · intro h i _
      exact h _
  · have hnone (index : Nat) : b.hasRoom index = false := by
      rw [hasRoom, Array.getElem?_eq_none (by omega)]
    have hlast : b.segments.size - 1 = 0 := by omega
    simp [nextWithRoom?, hlast, roomFrom?, hnone]

/-- The search depends only on how many segments there are and which have room. -/
theorem roomFrom?_congr (b b' : SegmentedBuffer) (hsize : b.segments.size = b'.segments.size)
    (hroom : ∀ index, b.hasRoom index = b'.hasRoom index) (index left : Nat) :
    b.roomFrom? index left = b'.roomFrom? index left := by
  induction left generalizing index with
  | zero => rw [roomFrom?, roomFrom?, hroom]
  | succ left ih => rw [roomFrom?, roomFrom?, hroom, hsize, ih]

end SegmentedBuffer

/-! ## Placing one record -/

namespace PlaceCall

/-- A call that has come to its end stays there. -/
theorem run_done (steps : Nat) (s : LockedSegments) (block : Block) (written : Bool) :
    run steps s ⟨block, .done written⟩ = (written, s.buffer) := by
  cases steps <;> rfl

/-- A call that has not come to its end takes another step. -/
theorem run_succ {s s' : LockedSegments} {p p' : PlaceCall} (steps : Nat)
    (hstep : step s p = (s', p')) (hphase : ∀ written, p.phase ≠ .done written) :
    run (steps + 1) s p = run steps s' p' := by
  obtain ⟨block, phase⟩ := p
  cases phase with
  | done written => exact absurd rfl (hphase written)
  | _ => simp only [run, hstep]

variable {b : SegmentedBuffer}

/-- A call that is alone takes the lock of a segment with room and appends. -/
theorem run_peek_of_room {index : Nat} (steps left : Nat) (block : Block)
    (hroom : b.hasRoom index = true) :
    run (steps + 4) ⟨b, []⟩ ⟨block, .peek false index left⟩ =
      (true, b.modifyRegion index (·.push block)) := by
  let b' := b.modifyRegion index (·.push block)
  calc run (steps + 4) ⟨b, []⟩ ⟨block, .peek false index left⟩
      = run (steps + 3) ⟨b, []⟩ ⟨block, .acquire (.probing false) index left⟩ :=
        run_succ _ (by simp only [step, if_pos hroom]) nofun
    _ = run (steps + 2) ⟨b, [index]⟩ ⟨block, .append (.probing false) index left⟩ :=
        run_succ _ (by simp [step]) nofun
    _ = run (steps + 1) ⟨b', [index]⟩ ⟨block, .release (.probing false) index left true⟩ :=
        run_succ _ (by simp only [step, hroom, b']) nofun
    _ = run steps ⟨b', []⟩ ⟨block, .done true⟩ := run_succ _ (by simp [step]) nofun
    _ = _ := run_done ..

/-- A call that is alone appends to the first segment with room, or fails if it
has gone over them all. -/
theorem run_peek (block : Block) (index left : Nat) (steps : Nat) (hsteps : left + 4 ≤ steps) :
    run steps ⟨b, []⟩ ⟨block, .peek false index left⟩ =
      match b.roomFrom? index left with
      | none => (false, b)
      | some found => (true, b.modifyRegion found (·.push block)) := by
  induction left generalizing index steps with
  | zero =>
    obtain ⟨steps, rfl⟩ : ∃ n, steps = n + 4 := ⟨steps - 4, by omega⟩
    unfold SegmentedBuffer.roomFrom?
    by_cases hroom : b.hasRoom index = true
    · rw [run_peek_of_room _ _ _ hroom, if_pos hroom]
    · have hstep : step ⟨b, []⟩ ⟨block, .peek false index 0⟩ =
          (⟨b, []⟩, ⟨block, .done false⟩) := by
        simp only [step, if_neg hroom, afterRefusal]
      rw [run_succ _ hstep nofun, run_done, if_neg hroom]
  | succ left ih =>
    obtain ⟨steps, rfl⟩ : ∃ n, steps = n + 4 := ⟨steps - 4, by omega⟩
    unfold SegmentedBuffer.roomFrom?
    by_cases hroom : b.hasRoom index = true
    · rw [run_peek_of_room _ _ _ hroom, if_pos hroom]
    · have hstep : step ⟨b, []⟩ ⟨block, .peek false index (left + 1)⟩ =
          (⟨b, []⟩, ⟨block, .peek false ((index + 1) % b.segments.size) left⟩) := by
        simp only [step, if_neg hroom, afterRefusal]
      rw [run_succ _ hstep nofun, ih _ _ (by omega), if_neg hroom]

end PlaceCall

namespace SegmentedBuffer

/-- The buffer after one more write has taken its number. -/
def counted (b : SegmentedBuffer) : SegmentedBuffer :=
  { b with writeCounter := b.writeCounter + 1 }

/-- An append that is alone takes a number and goes to the next segment with
room. -/
theorem append_eq (b : SegmentedBuffer) (order : Order) :
    b.append order =
      match b.nextWithRoom? with
      | none => (false, b.counted)
      | some index => (true, b.counted.modifyRegion index (·.push (encode order))) := by
  let first := b.wrapIndex b.writeCounter.toNat
  have hstart : b.append order =
      PlaceCall.run (4 * b.segments.size + 1) ⟨b.counted, []⟩
        ⟨encode order, .peek false first (b.segments.size - 1)⟩ :=
    PlaceCall.run_succ _ rfl nofun
  have hsearch : b.counted.roomFrom? first (b.segments.size - 1) = b.nextWithRoom? :=
    roomFrom?_congr b.counted b rfl (fun _ => rfl) ..
  by_cases hpos : 0 < b.segments.size
  · rw [hstart, PlaceCall.run_peek _ _ _ _ (by omega), hsearch]
  · -- without segments the first look already ends the search
    have hnone (index : Nat) : b.hasRoom index = false := by
      rw [hasRoom, Array.getElem?_eq_none (by omega)]
    have hempty : b.segments.size = 0 := by omega
    have hstep : PlaceCall.step ⟨b.counted, []⟩ ⟨encode order, .peek false first 0⟩ =
        (⟨b.counted, []⟩, ⟨encode order, .done false⟩) := by
      have hroom : b.counted.hasRoom first = false := hnone first
      simp [PlaceCall.step, PlaceCall.afterRefusal, hroom]
    rw [hstart, nextWithRoom?_eq_none_iff.mpr hnone, hempty,
      PlaceCall.run_succ _ hstep nofun, PlaceCall.run_done]

end SegmentedBuffer

end OrderStore
