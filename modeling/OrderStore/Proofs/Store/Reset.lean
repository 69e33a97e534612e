import OrderStore.Proofs.Segmented.Layout
import OrderStore.Proofs.Store.Alike

/-!
# Stores after a reset

A store that is emptied cannot be told from the one that was built, but for one
thing: a segmented store goes on counting its writes and its recyclings. So what
comes after a reset goes where the counters point, which is not the first segment
unless they happen to have come round to it. The other strategies keep no counters,
and start again at offset zero.
-/

namespace OrderStore

/-- A configuration is valid if a record fits, also into each segment, and if writes
and reads get at least one attempt. -/
theorem StoreConfig.validate_eq_ok_iff {c : StoreConfig} :
    c.validate = .ok () ↔
      recordSize ≤ c.capacity.toNat ∧ 0 < c.segmentCount.toNat ∧
        recordSize ≤ c.capacity.toNat / c.segmentCount.toNat ∧ c.optimistic.validate = .ok () := by
  have hzero : c.segmentCount = 0 ↔ c.segmentCount.toNat = 0 := UInt64.toNat_inj.symm
  simp only [StoreConfig.validate, hzero]
  split
  · simp only [reduceCtorEq, false_iff]
    omega
  · split
    · simp only [reduceCtorEq, false_iff]
      omega
    · split
      · simp only [reduceCtorEq, false_iff]
        omega
      · constructor
        · exact fun h => ⟨by omega, by omega, by omega, h⟩
        · exact fun h => h.2.2.2

/-- Wherever an emptied region starts again, a new one starts. -/
theorem Region.Represents.alike_new {r : Region} {orders : List Order} (h : r.Represents orders) :
    r.clear.Alike (.new r.capacity) ∧ r.rewind.Alike (.new r.capacity) :=
  ⟨.of_start rfl rfl h.clear.arena_capacity (Represents.new r.capacity).arena_capacity,
    .of_start rfl rfl h.rewind.arena_capacity (Represents.new r.capacity).arena_capacity⟩

/-- The segment as it is when it is new. -/
def Segment.renewed (segment : Segment) : Segment := .new segment.start segment.size

/-- Where a segment lies determines what it is when it is new. -/
theorem Segment.map_renewed_of_span {segments segments' : List Segment}
    (hspan : segments.map span = segments'.map span) :
    segments.map renewed = segments'.map renewed := by
  have hmap (segments : List Segment) : segments.map renewed =
      (segments.map span).map fun bounds => .new bounds.1 (bounds.2 - bounds.1) := by
    rw [List.map_map]
    refine List.map_congr_left fun segment _ => ?_
    simp [renewed, span]
  rw [hmap, hspan, ← hmap]

/-- Whether a call takes a number from the write counter of a segmented store. -/
def Call.takesNumber : Call → Bool
  | append _ => true
  | appendRing _ => true
  | _ => false

namespace Store

/-- The store with other counters, if it is segmented. -/
def withCounters : Store → UInt64 × UInt64 → Store
  | segmented b, (writeCounter, recycleCursor) => segmented { b with writeCounter, recycleCursor }
  | s, _ => s

variable {strategy : Strategy} {config : StoreConfig} {s : Store}

theorem strategy_withCounters (s : Store) (counters : UInt64 × UInt64) :
    (s.withCounters counters).strategy = s.strategy := by
  cases s <;> rfl

theorem capacity_withCounters (s : Store) (counters : UInt64 × UInt64) :
    (s.withCounters counters).capacity = s.capacity := by
  cases s <;> rfl

theorem segments_withCounters (s : Store) (counters : UInt64 × UInt64) :
    (s.withCounters counters).segments = s.segments := by
  cases s <;> rfl

theorem withCounters_of_ne (hstrategy : s.strategy ≠ .segmented) (counters : UInt64 × UInt64) :
    s.withCounters counters = s := by
  cases s with
  | segmented b => exact absurd rfl hstrategy
  | _ => rfl

/-- A store has the counters it is given, and one with a single cursor has none. -/
theorem counters_withCounters {t : Store} (h : t.strategy = s.strategy) :
    (s.withCounters t.counters).counters = t.counters := by
  cases s with
  | segmented b => rfl
  | _ =>
    cases t with
    | segmented b => cases h
    | _ => rfl

theorem Quiet.withCounters (h : s.Quiet) (counters : UInt64 × UInt64) :
    (s.withCounters counters).Quiet := by
  cases h with
  | exclusive region => exact .exclusive region
  | optimistic hstamps hpolicy => exact .optimistic hstamps hpolicy
  | readWrite region => exact .readWrite region
  | segmented b => exact .segmented _

/-- Every valid configuration makes a new store. -/
theorem build_eq_ok_iff : build strategy config = .ok s ↔ config.validate = .ok () ∧
    s = new strategy config.capacity.toNat config.segmentCount.toNat config.optimistic := by
  unfold build
  cases config.validate with
  | error fault => simp
  | ok => cases strategy <;> simp [new, eq_comm]

theorem isNew_of_build (h : build strategy config = .ok s) : s.IsNew := by
  obtain ⟨hvalid, rfl⟩ := build_eq_ok_iff.mp h
  obtain ⟨-, hcount, -, hpolicy⟩ := StoreConfig.validate_eq_ok_iff.mp hvalid
  obtain ⟨hattempts, hretries⟩ := RetryPolicy.validate_eq_ok_iff.mp hpolicy
  exact isNew_new strategy _ hcount (UInt32.le_iff_toNat_le.mpr hattempts)
    (UInt32.le_iff_toNat_le.mpr hretries)

theorem strategy_of_build (h : build strategy config = .ok s) : s.strategy = strategy := by
  obtain ⟨-, rfl⟩ := build_eq_ok_iff.mp h
  cases strategy <;> rfl

/-- The segments of a new store are new. -/
theorem IsNew.segments_eq (h : s.IsNew) : s.segments = s.segments.map Segment.renewed := by
  have hrenewed (segment : Segment) (hsegment : segment ∈ s.segments) :
      segment = segment.renewed := by
    have hregion := h.region_eq hsegment
    obtain ⟨start, region⟩ := segment
    exact congrArg (Segment.mk start) hregion
  calc s.segments = s.segments.map id := (List.map_id _).symm
    _ = s.segments.map Segment.renewed := List.map_congr_left hrenewed

/-- A reset turns every segment into one that cannot be told from a new one. -/
theorem forall₂_reset (h : s.AtRest) {call : Call} (hcall : call = .reset ∨ call = .forceReset) :
    List.Forall₂ Segment.Alike (s.perform call).2.segments (s.segments.map Segment.renewed) := by
  have hnew (segment : Segment) (hsegment : segment ∈ s.segments) :
      segment.clear.Alike segment.renewed ∧ segment.rewind.Alike segment.renewed := by
    obtain ⟨orders, horders⟩ := h.represents segment hsegment
    obtain ⟨hclear, hrewind⟩ := horders.alike_new
    exact ⟨⟨rfl, hclear⟩, ⟨rfl, hrewind⟩⟩
  rw [segments_perform h.quiet]
  rcases hcall with rfl | rfl
  · rw [nextSegments, List.forall₂_map_left_iff, List.forall₂_map_right_iff, List.forall₂_same]
    exact fun segment hsegment => (hnew segment hsegment).1
  · rw [nextSegments, List.forall₂_map_left_iff, List.forall₂_map_right_iff, List.forall₂_same]
    exact fun segment hsegment => (hnew segment hsegment).2

/-- An emptied store agrees with the new one, as soon as that is given its counters. -/
theorem IsNew.alike_reset (hnew : s.IsNew) (calls : List Call) {call : Call}
    (hcall : call = .reset ∨ call = .forceReset) :
    ((s.after calls).perform call).2.Alike (s.withCounters (s.after calls).counters) := by
  have hrest := hnew.atRest.after calls
  have hcounters : (s.after calls).nextCounters call = (s.after calls).counters := by
    rcases hcall with rfl | rfl <;> cases s.after calls <;> rfl
  constructor
  · rw [strategy_perform, strategy_after, strategy_withCounters]
  · rw [capacity_perform hrest.quiet, capacity_after hnew.atRest.quiet, capacity_withCounters]
  · rw [counters_perform, hcounters, counters_withCounters (s.strategy_after calls)]
  · rw [segments_withCounters, hnew.segments_eq,
      ← Segment.map_renewed_of_span (map_span_after hnew.atRest.quiet calls)]
    exact forall₂_reset hrest hcall

/-- A store that is emptied answers like the one that was built with the counters that
it has reached: with every strategy but the segmented one, just like the one that
was built. -/
theorem answers_after_reset (hbuild : build strategy config = .ok s) (calls : List Call)
    {call : Call} (hcall : call = .reset ∨ call = .forceReset) (further : List Call) :
    ((s.after calls).perform call).2.answers further =
        (s.withCounters (s.after calls).counters).answers further ∧
      (strategy ≠ .segmented →
        ((s.after calls).perform call).2.answers further = s.answers further) := by
  have hnew := isNew_of_build hbuild
  have hanswers : ((s.after calls).perform call).2.answers further =
      (s.withCounters (s.after calls).counters).answers further :=
    (hnew.alike_reset calls hcall).answers_eq ((hnew.atRest.after calls).quiet.perform call)
      (hnew.atRest.quiet.withCounters _) further
  refine ⟨hanswers, fun hstrategy => ?_⟩
  rw [← strategy_of_build hbuild] at hstrategy
  rwa [withCounters_of_ne hstrategy] at hanswers

/-- The agreement in a store that cannot lose it: two overwriting appends have come
round to the first of two segments when the store is emptied. -/
theorem answers_after_reset_round :
    let s := segmented (.new 128 2)
    let calls : List Call := [.appendRing { id := 1 }, .appendRing { id := 2 }]
    let further : List Call := [.append { id := 3 }, .read 0]
    build .segmented { capacity := 128, segmentCount := 2 } = .ok s ∧
      (Call.forceReset = .reset ∨ Call.forceReset = .forceReset) ∧
      ((s.after calls).perform .forceReset).2.answers further =
        (s.withCounters (2, 0)).answers further := by
  intro s calls further
  have hbuild : build .segmented { capacity := 128, segmentCount := 2 } = .ok s := by
    decide +kernel
  have hcounters : (s.after calls).counters = (2, 0) := by decide +kernel
  have hanswers := (answers_after_reset hbuild calls (Or.inr rfl) further).1
  rw [hcounters] at hanswers
  exact ⟨hbuild, Or.inr rfl, hanswers⟩

/-- In a segmented store with two segments, the record that is written after a reset is
not where it would be in a new store: one write was made before. -/
theorem answers_after_reset_ne :
    let s := segmented (.new 128 2)
    let further : List Call := [.append { id := 2 }, .read 0]
    build .segmented { capacity := 128, segmentCount := 2 } = .ok s ∧
      ((s.after [.append { id := 1 }]).perform .reset).2.answers further =
        [.flag true, .order none] ∧
      s.answers further = [.flag true, .order (some { id := 2 })] := by
  decide +kernel

/-! ## Where a segmented store goes on -/

/-- Every write of one record takes a number. -/
theorem writeCounter_after (hstrategy : s.strategy = .segmented) (calls : List Call) :
    (s.after calls).counters.1 = s.counters.1 + .ofNat (calls.countP Call.takesNumber) := by
  induction calls generalizing s with
  | nil => exact (UInt64.add_zero _).symm
  | cons call calls ih =>
    have hnext : (s.perform call).2.counters.1 =
        s.counters.1 + if call.takesNumber then 1 else 0 := by
      rw [counters_perform]
      rcases s.cases_strategy with ⟨b, rfl⟩ | ⟨hne, -⟩
      · cases call with
        | append order => rfl
        | appendRing order => rfl
        | _ => exact (UInt64.add_zero _).symm
      · exact absurd hstrategy hne
    have hrest := ih (s.strategy_perform call ▸ hstrategy)
    rw [hnext, UInt64.add_assoc] at hrest
    refine hrest.trans (congrArg _ ?_)
    rw [List.countP_cons, UInt64.ofNat_add, UInt64.add_comm]
    congr 1
    split <;> rfl

/-- A segmented store without any record puts the next one at the start of the segment
that the number of the write points to. -/
theorem landings_withCounters {capacity count : Nat} (hcount : 0 < count)
    (hshare : recordSize ≤ capacity / count) (counters : UInt64 × UInt64) (order : Order) :
    ((segmented (.new capacity count)).withCounters counters).landings (.append order) =
      [(counters.1.toNat % count * SegmentedBuffer.segmentSize capacity count, order)] := by
  obtain ⟨writeCounter, recycleCursor⟩ := counters
  let b := { SegmentedBuffer.new capacity count with writeCounter, recycleCursor }
  let index := writeCounter.toNat % count
  have hsize : b.segments.size = count := Array.size_ofFn
  have hindex : index < b.segments.size := hsize.symm ▸ Nat.mod_lt _ hcount
  have hget : b.segments[index]? = some b.segments[index] := Array.getElem?_eq_getElem hindex
  have hsegment : b.segments.toList[index]? = some b.segments[index] := by
    rw [Array.getElem?_toList, hget]
  obtain ⟨hstart, hposition, hroom⟩ := SegmentedBuffer.hasRoom_new hshare hsegment
  have htarget : b.nextWithRoom? = some index := by
    rw [SegmentedBuffer.nextWithRoom?, SegmentedBuffer.wrapIndex, hsize]
    exact SegmentedBuffer.roomFrom?_of_room _
      (SegmentedBuffer.hasRoom_eq_true_iff.mpr ⟨_, hget, hroom⟩)
  change (segmented b).landings (.append order) = _
  rw [landings, target?, SegmentedBuffer.target?, htarget, Option.bind_some, segments, hsegment]
  dsimp only
  rw [Call.orders, Segment.landings_singleton order (Region.canHoldRecord_of_hasRoom hroom),
    Region.makeRoom_of_room hroom, hstart, hposition, Nat.add_zero]

/-- The first record after a reset goes to the segment that the writes so far, counted
round and round, point to. -/
theorem landings_after_reset (hbuild : build .segmented config = .ok s) (calls : List Call)
    {call : Call} (hcall : call = .reset ∨ call = .forceReset) (order : Order) :
    ((s.after calls).perform call).2.landings (.append order) =
      [(calls.countP Call.takesNumber % 2 ^ 64 % config.segmentCount.toNat *
        SegmentedBuffer.segmentSize config.capacity.toNat config.segmentCount.toNat, order)] := by
  have hnew := isNew_of_build hbuild
  obtain ⟨hvalid, rfl⟩ := build_eq_ok_iff.mp hbuild
  obtain ⟨-, hcount, hshare, -⟩ := StoreConfig.validate_eq_ok_iff.mp hvalid
  rw [(hnew.alike_reset calls hcall).landings_eq, new, landings_withCounters hcount hshare,
    writeCounter_after rfl]
  change [((0 + UInt64.ofNat _).toNat % _ * _, order)] = _
  rw [UInt64.zero_add, UInt64.toNat_ofNat']

end Store

end OrderStore
