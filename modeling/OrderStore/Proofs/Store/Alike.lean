import OrderStore.Proofs.Buffer.Alike
import OrderStore.Proofs.Store.AtRest
import Mathlib.Data.List.Forall2

/-!
# Stores that agree on what can be read

Which segment a call chooses depends on the positions, on how many segments there
are, and on the numbers that a segmented buffer keeps. What the call then answers
depends on the chosen segment's position, or on bytes below it. So two stores of
one strategy that agree on all of these, and in which no write is under way,
cannot be told apart.
-/

namespace OrderStore

namespace Segment

/-- Two segments at the same place with regions that cannot be told apart. -/
structure Alike (a b : Segment) : Prop where
  /-- They begin at one offset. -/
  start_eq : a.start = b.start
  /-- Their regions agree on the position and on the bytes below it. -/
  region : a.region.Alike b.region

namespace Alike

variable {a b : Segment}

theorem receive (h : a.Alike b) (orders : List Order) :
    (a.receive orders).Alike (b.receive orders) :=
  ⟨h.start_eq, h.region.makeRoom.pushAll orders⟩

theorem clear (h : a.Alike b) : a.clear.Alike b.clear := ⟨h.start_eq, h.region.clear⟩

theorem rewind (h : a.Alike b) : a.rewind.Alike b.rewind := ⟨h.start_eq, h.region.rewind⟩

theorem contains_eq (h : a.Alike b) (offset : Nat) : a.contains offset = b.contains offset := by
  rw [contains, contains, h.start_eq, size, size, h.region.capacity_eq]

theorem landings_eq (h : a.Alike b) (orders : List Order) :
    a.landings orders = b.landings orders := by
  simp only [landings, h.start_eq, h.region.makeRoom.tracker_eq, h.region.makeRoom.room_eq]

end Alike

variable {as bs : List Segment}

/-- What is computed from each segment alone, and alike from those that cannot be
told apart, is the same for both lists. -/
theorem map_eq_of_alike {α : Type} {f : Segment → α} (h : List.Forall₂ Alike as bs)
    (hf : ∀ a b, a.Alike b → f a = f b) : as.map f = bs.map f := by
  induction h with
  | nil => rfl
  | cons hhead _ ih => rw [List.map_cons, List.map_cons, hf _ _ hhead, ih]

theorem usedIn_eq_of_alike (h : List.Forall₂ Alike as bs) : usedIn as = usedIn bs := by
  induction h with
  | nil => rfl
  | cons hhead _ ih =>
    rw [usedIn, usedIn, List.foldr_cons, List.foldr_cons, hhead.region.used_eq]
    exact congrArg _ ih

/-- A read looks at one of the segments, below its position. -/
theorem readIn_eq_of_alike (h : List.Forall₂ Alike as bs) (offset : Nat) :
    readIn as offset = readIn bs offset := by
  induction h with
  | nil => rfl
  | @cons a b as bs hhead _ ih =>
    rw [readIn, readIn, List.find?_cons, List.find?_cons, hhead.contains_eq]
    cases b.contains offset with
    | true =>
      dsimp only
      rw [hhead.start_eq, hhead.region.read_eq]
    | false => exact ih

/-- A change that keeps segments alike may be made in the same place of both lists. -/
theorem forall₂_modify {change : Segment → Segment} (h : List.Forall₂ Alike as bs)
    (hchange : ∀ a b, a.Alike b → (change a).Alike (change b)) (index : Nat) :
    List.Forall₂ Alike (as.modify index change) (bs.modify index change) := by
  induction h generalizing index with
  | nil => simp
  | cons hhead htail ih =>
    cases index with
    | zero => exact .cons (hchange _ _ hhead) htail
    | succ index => exact .cons hhead (ih index)

end Segment

/-! ## Which segment is chosen -/

namespace SegmentedBuffer

/-- The positions and sizes of the segments. -/
def trackers (b : SegmentedBuffer) : List Tracker := b.segments.toList.map (·.region.tracker)

theorem hasRoom_eq_trackers (b : SegmentedBuffer) (index : Nat) :
    b.hasRoom index = b.trackers[index]?.elim false fun t => t.hasRoomAfter t.position := by
  rw [hasRoom, trackers, List.getElem?_map, Array.getElem?_toList]
  cases b.segments[index]? <;> rfl

theorem canHold_eq_trackers (b : SegmentedBuffer) (index : Nat) :
    b.canHold index = b.trackers[index]?.elim false fun t => t.hasRoomAfter 0 := by
  rw [canHold, trackers, List.getElem?_map, Array.getElem?_toList]
  cases b.segments[index]? <;> rfl

theorem roomiest_congr {as bs : List Segment}
    (h : as.map (·.region.tracker) = bs.map (·.region.tracker)) (best : Option (Nat × Nat))
    (index : Nat) : roomiest best index as = roomiest best index bs := by
  induction as generalizing bs best index with
  | nil =>
    obtain rfl := List.map_eq_nil_iff.mp h.symm
    rfl
  | cons a as ih =>
    cases bs with
    | nil => cases h
    | cons b bs =>
      obtain ⟨hhead, htail⟩ := List.cons.inj h
      replace hhead : a.region.tracker = b.region.tracker := hhead
      rw [roomiest, roomiest, hhead]
      exact ih htail _ _

variable {b b' : SegmentedBuffer}

theorem size_eq_of_trackers (h : b.trackers = b'.trackers) :
    b.segments.size = b'.segments.size := by
  simpa [trackers] using congrArg List.length h

theorem nextWithRoom?_congr (h : b.trackers = b'.trackers)
    (hcounter : b.writeCounter = b'.writeCounter) : b.nextWithRoom? = b'.nextWithRoom? := by
  have hsize := size_eq_of_trackers h
  rw [nextWithRoom?, nextWithRoom?, wrapIndex, wrapIndex, hcounter, hsize]
  have hroom (index : Nat) : b.hasRoom index = b'.hasRoom index := by
    rw [hasRoom_eq_trackers, h, ← hasRoom_eq_trackers]
  exact roomFrom?_congr b b' hsize hroom ..

theorem nextVictim_congr (h : b.trackers = b'.trackers)
    (hcursor : b.recycleCursor = b'.recycleCursor) :
    b.seekVictim b.segments.size b.recycleCursor =
      b'.seekVictim b'.segments.size b'.recycleCursor := by
  have hsize := size_eq_of_trackers h
  rw [hcursor, hsize]
  have hhold (index : Nat) : b.canHold index = b'.canHold index := by
    rw [canHold_eq_trackers, h, ← canHold_eq_trackers]
  exact seekVictim_congr b b' hsize hhold ..

theorem segmentForBatch?_congr (h : b.trackers = b'.trackers) (required : Nat) :
    b.segmentForBatch? required = b'.segmentForBatch? required := by
  have hfirst (b : SegmentedBuffer) : b.segments.findIdx? (required ≤ ·.region.tracker.remaining) =
      b.trackers.findIdx? (required ≤ ·.remaining) := by
    rw [trackers, List.findIdx?_map, ← List.findIdx?_toArray, Array.toArray_toList]
    rfl
  rw [segmentForBatch?, segmentForBatch?, hfirst, hfirst, h, roomiest_congr h]

/-- The positions and the buffer's numbers determine where the next call writes. -/
theorem target?_congr (h : b.trackers = b'.trackers) (hcounter : b.writeCounter = b'.writeCounter)
    (hcursor : b.recycleCursor = b'.recycleCursor) (call : Call) :
    b.target? call = b'.target? call := by
  cases call with
  | append order => exact nextWithRoom?_congr h hcounter
  | appendAll orders =>
    rw [target?, target?, nextForBatch?, nextForBatch?, segmentForBatch?_congr h]
  | appendRing order =>
    rw [target?, target?, nextForRing?, nextForRing?, nextWithRoom?_congr h hcounter,
      nextVictim_congr h hcursor]
  | _ => rfl

theorem cursorAfterRing_congr (h : b.trackers = b'.trackers)
    (hcounter : b.writeCounter = b'.writeCounter) (hcursor : b.recycleCursor = b'.recycleCursor) :
    b.cursorAfterRing = b'.cursorAfterRing := by
  rw [cursorAfterRing, cursorAfterRing, nextWithRoom?_congr h hcounter, nextVictim_congr h hcursor,
    hcursor]

end SegmentedBuffer

theorem Region.Alike.target?_eq {r r' : Region} (h : r.Alike r') (call : Call) :
    r.target? call = r'.target? call := by
  have hadmits : r.admits call = r'.admits call := by
    cases call with
    | append order => exact h.hasRoom_eq
    | appendAll orders => rw [Region.admits, Region.admits, h.hasRoom_eq]
    | appendRing order => exact h.canHoldRecord_eq
    | _ => rfl
  rw [Region.target?, Region.target?, hadmits]

namespace Store

/-- A store with a single cursor reads from its region. -/
theorem Quiet.read_eq {s : Store} {r : Region} (h : s.Quiet) (hstrategy : s.strategy ≠ .segmented)
    (hr : s.Cursor r) (offset : Nat) : s.read offset = r.read offset := by
  obtain ⟨hsegments, -⟩ := hr
  cases h with
  | segmented b => exact absurd rfl hstrategy
  | @optimistic b hstamps hpolicy =>
    obtain ⟨-, hretries⟩ := RetryPolicy.validate_eq_ok_iff.mp hpolicy
    obtain ⟨-, rfl⟩ := Segment.mk.inj (List.singleton_inj.mp hsegments)
    exact b.read_eq offset hretries hstamps
  | _ =>
    obtain ⟨-, rfl⟩ := Segment.mk.inj (List.singleton_inj.mp hsegments)
    rfl

/-- Two stores of one strategy and size that agree on their counters and positions
and on the bytes below these. -/
structure Alike (s t : Store) : Prop where
  /-- They choose segments in the same way. -/
  strategy_eq : s.strategy = t.strategy
  /-- They are of one size. -/
  capacity_eq : s.capacity = t.capacity
  /-- Their next writes and recyclings have the same numbers. -/
  counters_eq : s.counters = t.counters
  /-- Their segments lie at the same places and agree on what can be read. -/
  segments : List.Forall₂ Segment.Alike s.segments t.segments

namespace Alike

variable {s t : Store}

/-- The regions of two stores with one segment each are alike. -/
theorem region {r r' : Region} (h : s.Alike t) (hs : s.segments = [⟨0, r⟩])
    (ht : t.segments = [⟨0, r'⟩]) : r.Alike r' := by
  have hsegments := h.segments
  rw [hs, ht] at hsegments
  cases hsegments with
  | cons hhead _ => exact hhead.region

theorem trackers_eq {b b' : SegmentedBuffer} (h : (segmented b).Alike (segmented b')) :
    b.trackers = b'.trackers :=
  Segment.map_eq_of_alike h.segments fun _ _ hsegment => hsegment.region.tracker_eq

/-- Two segmented stores keep their counters, too. -/
theorem counters_inj {b b' : SegmentedBuffer} (h : (segmented b).Alike (segmented b')) :
    b.writeCounter = b'.writeCounter ∧ b.recycleCursor = b'.recycleCursor :=
  Prod.mk.inj h.counters_eq

/-- Either both stores are segmented, or each has a single cursor. -/
theorem cases_strategy (h : s.Alike t) :
    (∃ b b', s = segmented b ∧ t = segmented b') ∨
      s.strategy ≠ .segmented ∧ ∃ r r', s.Cursor r ∧ t.Cursor r' ∧ r.Alike r' := by
  rcases s.cases_strategy with ⟨b, rfl⟩ | ⟨hs, r, hr⟩
  · rcases t.cases_strategy with ⟨b', rfl⟩ | ⟨ht, -⟩
    · exact Or.inl ⟨b, b', rfl, rfl⟩
    · exact absurd h.strategy_eq.symm ht
  · rcases t.cases_strategy with ⟨b', rfl⟩ | ⟨-, r', hr'⟩
    · exact absurd h.strategy_eq hs
    · exact Or.inr ⟨hs, r, r', hr, hr', h.region hr.segments_eq hr'.segments_eq⟩

/-- The next call chooses the same segment. -/
theorem target?_eq (h : s.Alike t) (call : Call) : s.target? call = t.target? call := by
  rcases h.cases_strategy with ⟨b, b', rfl, rfl⟩ | ⟨-, r, r', hr, hr', hregion⟩
  · obtain ⟨hcounter, hcursor⟩ := h.counters_inj
    exact SegmentedBuffer.target?_congr h.trackers_eq hcounter hcursor call
  · rw [hr.target?_eq, hr'.target?_eq, hregion.target?_eq]

theorem nextCounters_eq (h : s.Alike t) (call : Call) :
    s.nextCounters call = t.nextCounters call := by
  rcases h.cases_strategy with ⟨b, b', rfl, rfl⟩ | ⟨hstrategy, -⟩
  · obtain ⟨hcounter, hcursor⟩ := h.counters_inj
    have hring := SegmentedBuffer.cursorAfterRing_congr h.trackers_eq hcounter hcursor
    cases call <;> simp only [nextCounters, counters, hcounter, hcursor, hring]
  · have hkeep {s : Store} (hs : s.strategy ≠ .segmented) : s.nextCounters call = s.counters := by
      cases s with
      | segmented b => exact absurd rfl hs
      | _ => cases call <;> rfl
    rw [hkeep hstrategy, hkeep (h.strategy_eq ▸ hstrategy), h.counters_eq]

/-- Where the next call's orders land is the same. -/
theorem landings_eq (h : s.Alike t) (call : Call) : s.landings call = t.landings call := by
  have hmap : s.segments.map (·.landings call.orders) = t.segments.map (·.landings call.orders) :=
    Segment.map_eq_of_alike h.segments fun _ _ hsegment => hsegment.landings_eq call.orders
  have hlandings (s : Store) : s.landings call =
      ((s.target? call).bind ((s.segments.map (·.landings call.orders))[·]?)).getD [] := by
    rw [landings]
    cases s.target? call with
    | none => rfl
    | some index =>
      rw [Option.bind_some, Option.bind_some, List.getElem?_map]
      cases s.segments[index]? <;> rfl
  rw [hlandings, hlandings, h.target?_eq, hmap]

/-- The segments stay alike under every call. -/
theorem nextSegments (h : s.Alike t) (call : Call) :
    List.Forall₂ Segment.Alike (s.nextSegments call) (t.nextSegments call) := by
  have hwrite : List.Forall₂ Segment.Alike (s.segmentsAfterWrite call)
      (t.segmentsAfterWrite call) := by
    rw [segmentsAfterWrite, segmentsAfterWrite, h.target?_eq]
    cases t.target? call with
    | none => exact h.segments
    | some index =>
      exact Segment.forall₂_modify h.segments (fun _ _ hsegment => hsegment.receive _) index
  cases call with
  | reset =>
    rw [Store.nextSegments, Store.nextSegments, List.forall₂_map_left_iff,
      List.forall₂_map_right_iff]
    exact h.segments.imp fun _ _ hsegment => hsegment.clear
  | forceReset =>
    rw [Store.nextSegments, Store.nextSegments, List.forall₂_map_left_iff,
      List.forall₂_map_right_iff]
    exact h.segments.imp fun _ _ hsegment => hsegment.rewind
  | _ => exact hwrite

/-- Stores that agree do so after the next call. -/
theorem perform (h : s.Alike t) (hs : s.Quiet) (ht : t.Quiet) (call : Call) :
    (s.perform call).2.Alike (t.perform call).2 where
  strategy_eq := by rw [strategy_perform, strategy_perform, h.strategy_eq]
  capacity_eq := by rw [capacity_perform hs, capacity_perform ht, h.capacity_eq]
  counters_eq := by rw [counters_perform, counters_perform, h.nextCounters_eq]
  segments := by
    rw [segments_perform hs, segments_perform ht]
    exact h.nextSegments call

/-- A read finds the same. -/
theorem read_eq (h : s.Alike t) (hs : s.Quiet) (ht : t.Quiet) (offset : Nat) :
    s.read offset = t.read offset := by
  rcases h.cases_strategy with ⟨b, b', rfl, rfl⟩ | ⟨hstrategy, r, r', hr, hr', hregion⟩
  · rw [read_segmented, read_segmented]
    exact Segment.readIn_eq_of_alike h.segments offset
  · rw [hs.read_eq hstrategy hr, ht.read_eq (h.strategy_eq ▸ hstrategy) hr', hregion.read_eq]

/-- The next call gets the same answer. -/
theorem perform_fst_eq (h : s.Alike t) (hs : s.Quiet) (ht : t.Quiet) (call : Call) :
    (s.perform call).1 = (t.perform call).1 := by
  have hused : s.used = t.used := by
    rw [used_eq, used_eq, Segment.usedIn_eq_of_alike h.segments]
  exact perform_fst_congr hs ht h.capacity_eq hused (h.read_eq hs ht)
    (congrArg Option.isSome (h.target?_eq call)) (congrArg List.length (h.landings_eq call))

/-- Stores that agree give the same answers to any history of calls. -/
theorem answers_eq (h : s.Alike t) (hs : s.Quiet) (ht : t.Quiet) (calls : List Call) :
    s.answers calls = t.answers calls := by
  induction calls generalizing s t with
  | nil => rfl
  | cons call calls ih =>
    have hrest := ih (h.perform hs ht call) (hs.perform call) (ht.perform call)
    calc s.answers (call :: calls)
        = (s.perform call).1 :: (s.perform call).2.answers calls := rfl
      _ = (t.perform call).1 :: (t.perform call).2.answers calls := by
        rw [h.perform_fst_eq hs ht, hrest]
      _ = t.answers (call :: calls) := rfl

end Alike

end Store

end OrderStore
