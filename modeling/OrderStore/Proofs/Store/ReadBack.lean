import OrderStore.Proofs.Store.AtRest
import Mathlib.Data.List.OfFn
import Mathlib.Data.List.Nodup

/-!
# What a store reads back

Every order that a call writes lands on a slot of one segment. A log of the
landings says what the whole store reads back: at each slot below the position
of its segment the order that landed there last, as it is stored, and nothing
at any other offset.
-/

namespace OrderStore

namespace Segment

/-! ## One segment -/

/-- Where a segment lies says which offsets it contains. -/
theorem contains_of_span {segment other : Segment} (h : other.span = segment.span) (offset : Nat) :
    other.contains offset = segment.contains offset := by
  obtain ⟨hstart, hend⟩ := Prod.mk.inj h
  have hsize : other.size = segment.size := by omega
  rw [contains, contains, hstart, hsize]

/-- A change of one segment is nothing to a read outside of it. -/
theorem readIn_modify_of_outside {segments : List Segment} {segment : Segment} {index : Nat}
    (hsegment : segments[index]? = some segment) {change : Segment → Segment}
    (hspan : (change segment).span = segment.span) {offset : Nat}
    (houtside : segment.contains offset = false) :
    readIn (segments.modify index change) offset = readIn segments offset := by
  have hfind : (segments.modify index change).find? (·.contains offset) =
      segments.find? (·.contains offset) := by
    induction segments generalizing index with
    | nil => simp at hsegment
    | cons other segments ih =>
      cases index with
      | zero =>
        obtain rfl : other = segment := by simpa using hsegment
        have hchanged := (contains_of_span hspan offset).trans houtside
        rw [List.modify_zero_cons, List.find?_cons_of_neg (by simp [hchanged]),
          List.find?_cons_of_neg (by simp [houtside])]
      | succ index =>
        have hindex : segments[index]? = some segment := by simpa using hsegment
        rw [List.modify_succ_cons, List.find?_cons, List.find?_cons, ih hindex]
  rw [readIn, hfind, readIn]

/-- Landings lie at or above the position and within the segment. -/
theorem bounds_of_mem_landings {segment : Segment} {orders : List Order} {landing : Nat × Order}
    (h : landing ∈ segment.landings orders) :
    segment.start + segment.region.makeRoom.tracker.position ≤ landing.1 ∧
      landing.1 + recordSize ≤ segment.start + segment.size := by
  obtain ⟨i, horder, hoffset⟩ := mem_landingsFrom_iff.mp h
  obtain ⟨hi, -⟩ := List.getElem?_eq_some_iff.mp horder
  have hroom : i + 1 ≤ segment.region.makeRoom.room := by
    rw [List.length_take] at hi
    omega
  have hslots := Nat.mul_le_of_le_div recordSize _ _ hroom
  have hcapacity : segment.region.makeRoom.tracker.capacity = segment.size :=
    segment.region.capacity_makeRoom
  rw [hcapacity, Nat.add_mul, Nat.one_mul] at hslots
  have := recordSize_pos
  omega

/-- The slots below the position of a segment hold the orders that landed there
last. -/
structure Shows (segment : Segment) (log : List (Nat × Order)) (orders : List Order) : Prop where
  /-- The slots hold the listed orders. -/
  represents : segment.region.Represents orders
  /-- Each of them landed last on its slot. -/
  landed : ∀ {i : Nat} {order : Order}, orders[i]? = some order →
    latest log (segment.start + i * recordSize) = some order

namespace Shows

variable {segment : Segment} {log : List (Nat × Order)} {orders : List Order}

/-- A cleared segment shows nothing, whatever has landed. -/
theorem clear (h : segment.Shows log orders) (any : List (Nat × Order)) :
    segment.clear.Shows any [] := ⟨h.represents.clear, by simp⟩

/-- A rewound segment shows nothing, although its bytes are still there. -/
theorem rewind (h : segment.Shows log orders) (any : List (Nat × Order)) :
    segment.rewind.Shows any [] := ⟨h.represents.rewind, by simp⟩

/-- Every slot shown lies within the segment. -/
theorem slot_le (h : segment.Shows log orders) {i : Nat} (hi : i < orders.length) :
    segment.start + i * recordSize + recordSize ≤ segment.start + segment.size := by
  have hposition := h.represents.position_eq
  have hle := h.represents.position_le
  have hslot := Nat.mul_le_mul_right recordSize (show i + 1 ≤ orders.length from hi)
  rw [Nat.add_mul, Nat.one_mul] at hslot
  unfold size
  omega

/-- Landings outside the segment do not change what it shows. -/
theorem of_apart (h : segment.Shows log orders) {more : List (Nat × Order)}
    (hapart : ∀ landing ∈ more, landing.1 + recordSize ≤ segment.start ∨
      segment.start + segment.size ≤ landing.1) : segment.Shows (log ++ more) orders where
  represents := h.represents
  landed := by
    intro i order hget
    obtain ⟨hi, -⟩ := List.getElem?_eq_some_iff.mp hget
    have hslot := h.slot_le hi
    have := recordSize_pos
    rw [latest_append, latest_eq_none, Option.none_or]
    · exact h.landed hget
    · intro landing hlanding
      rcases hapart landing hlanding with hbefore | hafter <;> omega

/-- A segment that receives orders shows them behind what it kept. -/
theorem receive (h : segment.Shows log orders) (more : List Order) :
    ∃ kept : List Order, segment.region.makeRoom.tracker.position = kept.length * recordSize ∧
      (segment.receive more).Shows (log ++ segment.landings more)
        (kept ++ more.take segment.region.makeRoom.room) := by
  have hrepresents := h.represents.makeRoom
  generalize hkept : (if segment.region.hasRoom || !segment.region.canHoldRecord then orders
    else []) = kept at hrepresents
  have hlanded {i : Nat} {order : Order} (hget : kept[i]? = some order) :
      latest log (segment.start + i * recordSize) = some order := by
    subst hkept
    split at hget
    · exact h.landed hget
    · cases hget
  have hposition := hrepresents.position_eq
  refine ⟨kept, hposition, hrepresents.pushAll more, ?_⟩
  intro i order hget
  change latest _ (segment.start + i * recordSize) = some order
  rw [List.getElem?_append] at hget
  rw [latest_append]
  split at hget
  · next hi =>
    rw [latest_eq_none, Option.none_or, hlanded hget]
    intro landing hlanding
    have hbounds := bounds_of_mem_landings hlanding
    have hslot := Nat.mul_lt_mul_of_pos_right hi recordSize_pos
    omega
  · next hi =>
    have hslot : segment.start + i * recordSize =
        segment.start + segment.region.makeRoom.tracker.position +
          (i - kept.length) * recordSize := by
      rw [hposition, Nat.add_assoc, ← Nat.add_mul]
      congr 2
      omega
    rw [hslot, landings, latest_landingsFrom, hget, Option.some_or]

end Shows

/-- The offsets of the slots below the position. -/
def writtenOffsets (segment : Segment) : List Nat :=
  (List.range (segment.region.used / recordSize)).map fun i => segment.start + recordSize * i

theorem mem_writtenOffsets_iff {segment : Segment} {offset : Nat} :
    offset ∈ segment.writtenOffsets ↔
      ∃ i, offset = segment.start + recordSize * i ∧
        recordSize * (i + 1) ≤ segment.region.used := by
  unfold writtenOffsets
  rw [List.mem_map]
  constructor
  · rintro ⟨i, hi, rfl⟩
    rw [List.mem_range, ← Nat.add_one_le_iff, Nat.le_div_iff_mul_le recordSize_pos] at hi
    exact ⟨i, rfl, by rwa [Nat.mul_comm]⟩
  · rintro ⟨i, rfl, hi⟩
    refine ⟨i, ?_, rfl⟩
    rw [List.mem_range, ← Nat.add_one_le_iff, Nat.le_div_iff_mul_le recordSize_pos]
    rwa [Nat.mul_comm] at hi

theorem nodup_writtenOffsets (segment : Segment) : segment.writtenOffsets.Nodup := by
  apply List.Nodup.map _ List.nodup_range
  intro i j hij
  exact Nat.eq_of_mul_eq_mul_left recordSize_pos (Nat.add_left_cancel hij)

/-- The bytes used in a list of segments are those of the slots below the
positions. -/
theorem usedIn_eq {segments : List Segment}
    (h : ∀ segment ∈ segments, ∃ orders, segment.region.Represents orders) :
    usedIn segments = recordSize * (segments.flatMap writtenOffsets).length := by
  induction segments with
  | nil => rfl
  | cons segment segments ih =>
    obtain ⟨orders, horders⟩ := h segment List.mem_cons_self
    have hrest := ih fun other hother => h other (List.mem_cons_of_mem _ hother)
    have hfirst : segment.region.used = recordSize * segment.writtenOffsets.length := by
      rw [writtenOffsets, List.length_map, List.length_range, horders.used,
        Nat.mul_div_cancel _ recordSize_pos, Nat.mul_comm]
    unfold usedIn at hrest ⊢
    rw [List.foldr_cons, hrest, hfirst, List.flatMap_cons, List.length_append, Nat.mul_add]

end Segment

/-! ## The whole store -/

namespace Store

/-- The landings of a history of calls, from the oldest on. -/
def landed (s : Store) : List Call → List (Nat × Order)
  | [] => []
  | call :: calls => s.landings call ++ (s.perform call).2.landed calls

/-- A store at rest whose segments lie one behind the other and show what landed
in them last. -/
structure Records (s : Store) (log : List (Nat × Order)) : Prop where
  /-- No write is under way. -/
  atRest : s.AtRest
  /-- Each segment ends before the next one starts. -/
  apart : (s.segments.map Segment.span).Pairwise fun a b => a.2 ≤ b.1
  /-- Each slot below a position holds what landed there last. -/
  shows : ∀ segment ∈ s.segments, ∃ orders, segment.Shows log orders

theorem landings_of_target {s : Store} {call : Call} {index : Nat} {segment : Segment}
    (htarget : s.target? call = some index) (hsegment : s.segments[index]? = some segment) :
    s.landings call = segment.landings call.orders := by
  rw [landings, htarget, Option.bind_some, hsegment]

namespace Records

variable {s : Store} {log : List (Nat × Order)}

/-- Segments with different numbers do not overlap. -/
theorem apart_of_ne (h : s.Records log) {i j : Nat} {a b : Segment}
    (ha : s.segments[i]? = some a) (hb : s.segments[j]? = some b) (hne : i ≠ j) :
    a.start + a.size ≤ b.start ∨ b.start + b.size ≤ a.start := by
  have hpair {i j : Nat} {a b : Segment} (ha : s.segments[i]? = some a)
      (hb : s.segments[j]? = some b) (hlt : i < j) : a.start + a.size ≤ b.start := by
    obtain ⟨hi, rfl⟩ := List.getElem?_eq_some_iff.mp ha
    obtain ⟨hj, rfl⟩ := List.getElem?_eq_some_iff.mp hb
    exact List.pairwise_iff_getElem.mp (List.pairwise_map.mp h.apart) i j hi hj hlt
  rcases Nat.lt_or_gt_of_ne hne with hlt | hgt
  · exact Or.inl (hpair ha hb hlt)
  · exact Or.inr (hpair hb ha hgt)

/-- What lands in one segment does not change what another shows. -/
theorem shows_apart (h : s.Records log) {i j : Nat} {segment other : Segment}
    (hsegment : s.segments[i]? = some segment) (hother : s.segments[j]? = some other) (hne : i ≠ j)
    (orders : List Order) : ∃ shown, other.Shows (log ++ segment.landings orders) shown := by
  obtain ⟨shown, hshown⟩ := h.shows other (List.mem_of_getElem? hother)
  refine ⟨shown, hshown.of_apart fun landing hlanding => ?_⟩
  have hbounds := Segment.bounds_of_mem_landings hlanding
  rcases h.apart_of_ne hsegment hother hne with hbelow | habove <;> omega

/-- A segment that receives orders adds their landings to the log. -/
theorem receive (h : s.Records log) {s' : Store} (hquiet : s'.Quiet) {index : Nat}
    {segment : Segment} (hsegment : s.segments[index]? = some segment) {orders : List Order}
    (hsegments : s'.segments = s.segments.modify index (·.receive orders)) :
    s'.Records (log ++ segment.landings orders) := by
  have hshows : ∀ other ∈ s'.segments,
      ∃ shown, other.Shows (log ++ segment.landings orders) shown := by
    rw [hsegments]
    intro other hother
    obtain ⟨i, before, hbefore, hcases⟩ := exists_of_mem_modify hother
    rcases hcases with ⟨rfl, rfl⟩ | ⟨hne, rfl⟩
    · obtain rfl := Option.some.inj (hsegment.symm.trans hbefore)
      obtain ⟨shown, hshown⟩ := h.shows segment (List.mem_of_getElem? hsegment)
      obtain ⟨kept, -, hreceived⟩ := hshown.receive orders
      exact ⟨_, hreceived⟩
    · exact h.shows_apart hsegment hbefore hne orders
  refine ⟨⟨hquiet, fun other hother => ?_⟩, ?_, hshows⟩
  · obtain ⟨shown, hshown⟩ := hshows other hother
    exact ⟨shown, hshown.represents⟩
  · rw [hsegments, map_span_modify _ _ fun segment => segment.span_receive orders]
    exact h.apart

/-- A call adds its landings to the log. -/
theorem perform (h : s.Records log) (call : Call) :
    (s.perform call).2.Records (log ++ s.landings call) := by
  refine ⟨h.atRest.perform call, ?_, ?_⟩
  · rw [map_span_perform h.atRest.quiet]
    exact h.apart
  · rw [segments_perform h.atRest.quiet]
    intro segment hsegment
    obtain ⟨index, before, hbefore, hcases⟩ := exists_of_mem_nextSegments hsegment
    obtain ⟨orders, horders⟩ := h.shows before (List.mem_of_getElem? hbefore)
    rcases hcases with ⟨-, rfl | rfl⟩ | ⟨htarget, rfl⟩ | ⟨htarget, rfl⟩
    · exact ⟨[], horders.clear _⟩
    · exact ⟨[], horders.rewind _⟩
    · rw [landings_of_target htarget hbefore]
      obtain ⟨kept, -, hreceived⟩ := horders.receive call.orders
      exact ⟨_, hreceived⟩
    · cases hchosen : s.target? call with
      | none =>
        rw [landings, hchosen, Option.bind_none, List.append_nil]
        exact ⟨orders, horders⟩
      | some other =>
        obtain ⟨chosen, hother, -⟩ := canHoldRecord_of_target? hchosen
        rw [landings_of_target hchosen hother]
        exact h.shows_apart hother hbefore (fun heq => htarget (heq ▸ hchosen)) call.orders

/-- A history of calls adds all its landings to the log. -/
theorem after (h : s.Records log) (calls : List Call) :
    (s.after calls).Records (log ++ s.landed calls) := by
  induction calls generalizing s log with
  | nil =>
    rw [landed, List.append_nil]
    exact h
  | cons call calls ih =>
    rw [landed, ← List.append_assoc]
    exact ih (h.perform call)

/-- The segment that contains an offset is the one that a read finds. -/
theorem find?_eq (h : s.Records log) {segment : Segment} {offset : Nat}
    (hsegment : segment ∈ s.segments) (hcontains : segment.contains offset = true) :
    s.segments.find? (·.contains offset) = some segment := by
  obtain ⟨i, hi, rfl⟩ := List.mem_iff_getElem.mp hsegment
  refine List.find?_eq_some_iff_getElem.mpr ⟨hcontains, i, hi, rfl, ?_⟩
  intro j hj
  have happart := List.pairwise_iff_getElem.mp (List.pairwise_map.mp h.apart) j i (by omega) hi hj
  simp only [Segment.contains, Segment.span, decide_eq_true_eq, Bool.not_eq_true',
    decide_eq_false_iff_not] at hcontains happart ⊢
  omega

/-- A read goes to the segment that contains the offset. -/
theorem read_of_contains (h : s.Records log) {segment : Segment} {offset : Nat}
    (hsegment : segment ∈ s.segments) (hcontains : segment.contains offset = true) :
    s.read offset = segment.region.read (offset - segment.start) := by
  rw [h.atRest.read_eq, Segment.readIn, h.find?_eq hsegment hcontains]

/-- A store reads back the orders that its segments show. -/
theorem read_eq_some_iff (h : s.Records log) {offset : Nat} {order : Order} :
    s.read offset = some order ↔
      ∃ segment ∈ s.segments, ∃ orders, segment.Shows log orders ∧
        ∃ i original, offset = segment.start + i * recordSize ∧ orders[i]? = some original ∧
          order = original.stored := by
  rw [h.atRest.read_eq, Segment.readIn]
  constructor
  · intro hread
    cases hfind : s.segments.find? (·.contains offset) with
    | none => simp [hfind] at hread
    | some segment =>
      have hsegment := List.mem_of_find?_eq_some hfind
      have hcontains := List.find?_some hfind
      obtain ⟨orders, hshows⟩ := h.shows segment hsegment
      simp only [hfind, hshows.represents.read] at hread
      split at hread
      · next haligned =>
        obtain ⟨original, horiginal, rfl⟩ := Option.map_eq_some_iff.mp hread
        refine ⟨segment, hsegment, orders, hshows, _, original, ?_, horiginal, rfl⟩
        rw [Nat.div_mul_cancel (Nat.dvd_of_mod_eq_zero haligned)]
        simp only [Segment.contains, decide_eq_true_eq] at hcontains
        omega
      · cases hread
  · rintro ⟨segment, hsegment, orders, hshows, i, original, rfl, horiginal, rfl⟩
    obtain ⟨hi, -⟩ := List.getElem?_eq_some_iff.mp horiginal
    have hslot := hshows.slot_le hi
    have hcontains : segment.contains (segment.start + i * recordSize) = true := by
      have := recordSize_pos
      simp only [Segment.contains, decide_eq_true_eq]
      omega
    simp only [h.find?_eq hsegment hcontains, hshows.represents.read, Nat.add_sub_cancel_left,
      Nat.mul_mod_left, if_true, Nat.mul_div_cancel _ recordSize_pos, horiginal, Option.map_some]

/-- A store reads back exactly the slots below the positions of its segments. -/
theorem isSome_read_iff (h : s.Records log) (offset : Nat) :
    (s.read offset).isSome ↔
      ∃ segment ∈ s.segments, ∃ i, offset = segment.start + recordSize * i ∧
        recordSize * (i + 1) ≤ segment.region.used := by
  rw [Option.isSome_iff_exists]
  constructor
  · rintro ⟨order, hread⟩
    obtain ⟨segment, hsegment, orders, hshows, i, original, rfl, horiginal, -⟩ :=
      h.read_eq_some_iff.mp hread
    obtain ⟨hi, -⟩ := List.getElem?_eq_some_iff.mp horiginal
    refine ⟨segment, hsegment, i, by rw [Nat.mul_comm], ?_⟩
    rw [hshows.represents.used, Nat.mul_comm]
    exact Nat.mul_le_mul_right recordSize hi
  · rintro ⟨segment, hsegment, i, rfl, hi⟩
    obtain ⟨orders, hshows⟩ := h.shows segment hsegment
    rw [hshows.represents.used, Nat.mul_comm, Nat.mul_le_mul_right_iff recordSize_pos] at hi
    exact ⟨_, h.read_eq_some_iff.mpr ⟨segment, hsegment, orders, hshows, i, orders[i],
      by rw [Nat.mul_comm], List.getElem?_eq_getElem hi, rfl⟩⟩

/-- Where a store reads back anything, it is what landed there last. -/
theorem latest_of_read (h : s.Records log) {offset : Nat} {order : Order}
    (hread : s.read offset = some order) :
    ∃ original, latest log offset = some original ∧ order = original.stored := by
  obtain ⟨segment, -, orders, hshows, i, original, rfl, horiginal, rfl⟩ :=
    h.read_eq_some_iff.mp hread
  exact ⟨original, hshows.landed horiginal, rfl⟩

/-- What lands is read back where it landed. -/
theorem read_of_mem_landings (h : s.Records log) {s' : Store} (hquiet : s'.Quiet) {index : Nat}
    {segment : Segment} (hsegment : s.segments[index]? = some segment) {orders : List Order}
    (hsegments : s'.segments = s.segments.modify index (·.receive orders))
    {landing : Nat × Order} (hlanding : landing ∈ segment.landings orders) :
    s'.read landing.1 = some landing.2.stored := by
  obtain ⟨shown, hshown⟩ := h.shows segment (List.mem_of_getElem? hsegment)
  obtain ⟨kept, hposition, hreceived⟩ := hshown.receive orders
  obtain ⟨i, hget, hoffset⟩ := mem_landingsFrom_iff.mp hlanding
  have hmem : segment.receive orders ∈ s'.segments := by
    rw [hsegments]
    exact mem_modify hsegment (·.receive orders)
  rw [(h.receive hquiet hsegment hsegments).read_eq_some_iff]
  refine ⟨_, hmem, _, hreceived, kept.length + i, landing.2, ?_, ?_, rfl⟩
  · rw [hoffset, hposition, Nat.add_mul, Nat.add_assoc]
    rfl
  · rw [List.getElem?_append_right (Nat.le_add_right ..), Nat.add_sub_cancel_left, hget]

/-- What a call writes is read back when it returns. -/
theorem read_landed (h : s.Records log) {call : Call} {landing : Nat × Order}
    (hlanding : landing ∈ s.landings call) :
    (s.perform call).2.read landing.1 = some landing.2.stored := by
  unfold landings at hlanding
  cases htarget : s.target? call with
  | none => simp [htarget] at hlanding
  | some index =>
    cases hsegment : s.segments[index]? with
    | none => simp [htarget, hsegment] at hlanding
    | some segment =>
      rw [htarget, Option.bind_some, hsegment] at hlanding
      exact h.read_of_mem_landings (h.atRest.quiet.perform call) hsegment
        (segments_perform_of_target h.atRest.quiet htarget) hlanding

/-- Orders land on slots that hold no record, unless a segment is recycled. -/
theorem read_eq_none_of_mem_landings (h : s.Records log) {index : Nat} {segment : Segment}
    (hsegment : s.segments[index]? = some segment) (hroom : segment.region.hasRoom = true)
    {orders : List Order} {landing : Nat × Order} (hlanding : landing ∈ segment.landings orders) :
    s.read landing.1 = none := by
  have hbounds := Segment.bounds_of_mem_landings hlanding
  rw [Region.makeRoom_of_room hroom] at hbounds
  rw [← Option.not_isSome_iff_eq_none, h.isSome_read_iff]
  rintro ⟨other, hother, i, hoffset, hi⟩
  obtain ⟨j, hj⟩ := List.mem_iff_getElem?.mp hother
  obtain ⟨orders, hshows⟩ := h.shows other hother
  have hused : other.region.used ≤ other.size := hshows.represents.position_le
  have := recordSize_pos
  rw [Nat.mul_add, Nat.mul_one] at hi
  by_cases heq : index = j
  · subst heq
    obtain rfl := Option.some.inj (hsegment.symm.trans hj)
    unfold Region.used Tracker.used at hi
    omega
  · rcases h.apart_of_ne hsegment hj heq with hbelow | habove <;> omega

/-- What a call writes lands where there was nothing, unless it overwrites. -/
theorem read_eq_none_of_landed (h : s.Records log) {call : Call}
    (hring : ∀ order, call ≠ .appendRing order) {landing : Nat × Order}
    (hlanding : landing ∈ s.landings call) : s.read landing.1 = none := by
  cases htarget : s.target? call with
  | none => simp [landings, htarget] at hlanding
  | some index =>
    obtain ⟨segment, hsegment, hroom⟩ := hasRoom_of_target? hring htarget
    rw [landings_of_target htarget hsegment] at hlanding
    exact h.read_eq_none_of_mem_landings hsegment hroom hlanding

/-- Unless a segment is recycled, a read changes only where an order lands. -/
theorem read_receive_of_ne (h : s.Records log) {s' : Store} (hquiet : s'.Quiet) {index : Nat}
    {segment : Segment} (hsegment : s.segments[index]? = some segment)
    (hroom : segment.region.hasRoom = true) {orders : List Order}
    (hsegments : s'.segments = s.segments.modify index (·.receive orders)) {offset : Nat}
    (hne : ∀ landing ∈ segment.landings orders, landing.1 ≠ offset) :
    s'.read offset = s.read offset := by
  have hafter := h.receive hquiet hsegment hsegments
  have hmem := List.mem_of_getElem? hsegment
  cases hcontains : segment.contains offset with
  | false =>
    rw [hafter.atRest.read_eq, h.atRest.read_eq, hsegments]
    exact Segment.readIn_modify_of_outside hsegment (segment.span_receive orders) hcontains
  | true =>
    have hreceived : segment.receive orders ∈ s'.segments := by
      rw [hsegments]
      exact mem_modify hsegment (·.receive orders)
    have hspan := Segment.contains_of_span (segment.span_receive orders) offset
    have hstart : segment.start ≤ offset := (of_decide_eq_true hcontains).1
    obtain ⟨held, hheld⟩ := h.atRest.represents segment hmem
    rw [hafter.read_of_contains hreceived (hspan.trans hcontains),
      h.read_of_contains hmem hcontains]
    change (segment.region.makeRoom.pushAll orders).2.read (offset - segment.start) = _
    rw [Region.makeRoom_of_room hroom]
    refine hheld.read_of_append (hheld.pushAll orders) fun i hi hplace => ?_
    refine hne (segment.start + segment.region.tracker.position + i * recordSize,
      (orders.take segment.region.room)[i]) ?_ (by dsimp only; omega)
    rw [Segment.landings, Region.makeRoom_of_room hroom]
    exact mem_landingsFrom_iff.mpr ⟨i, List.getElem?_eq_getElem hi, rfl⟩

/-- Records stay as they are, unless a segment is recycled. -/
theorem read_receive_of_isSome (h : s.Records log) {s' : Store} (hquiet : s'.Quiet) {index : Nat}
    {segment : Segment} (hsegment : s.segments[index]? = some segment)
    (hroom : segment.region.hasRoom = true) {orders : List Order}
    (hsegments : s'.segments = s.segments.modify index (·.receive orders)) {offset : Nat}
    (hread : (s.read offset).isSome) : s'.read offset = s.read offset := by
  refine h.read_receive_of_ne hquiet hsegment hroom hsegments fun landing hlanding heq => ?_
  rw [← heq, h.read_eq_none_of_mem_landings hsegment hroom hlanding] at hread
  cases hread

/-- Calls that do not overwrite and do not reset leave every record as it is. -/
theorem read_perform_of_isSome (h : s.Records log) {call : Call} (hreset : call ≠ .reset)
    (hforce : call ≠ .forceReset) (hring : ∀ order, call ≠ .appendRing order) {offset : Nat}
    (hread : (s.read offset).isSome) : (s.perform call).2.read offset = s.read offset := by
  cases htarget : s.target? call with
  | none =>
    rw [(h.atRest.perform call).read_eq, h.atRest.read_eq,
      segments_perform_of_none h.atRest.quiet hreset hforce htarget]
  | some index =>
    obtain ⟨segment, hsegment, hroom⟩ := hasRoom_of_target? hring htarget
    exact h.read_receive_of_isSome (h.atRest.quiet.perform call) hsegment hroom
      (segments_perform_of_target h.atRest.quiet htarget) hread

/-- As many records are used as there are offsets that read back. -/
theorem used_eq (h : s.Records log) :
    ∃ offsets : List Nat, offsets.Nodup ∧
      (∀ offset, offset ∈ offsets ↔ (s.read offset).isSome) ∧
      s.used = recordSize * offsets.length := by
  refine ⟨s.segments.flatMap Segment.writtenOffsets, ?_, ?_, ?_⟩
  · rw [List.nodup_flatMap]
    refine ⟨fun segment _ => segment.nodup_writtenOffsets, ?_⟩
    refine (List.pairwise_map.mp h.apart).imp_of_mem ?_
    intro a b ha _ happart offset hoffseta hoffsetb
    obtain ⟨orders, hshows⟩ := h.shows a ha
    obtain ⟨i, rfl, hi⟩ := Segment.mem_writtenOffsets_iff.mp hoffseta
    obtain ⟨j, hj, -⟩ := Segment.mem_writtenOffsets_iff.mp hoffsetb
    have hused : a.region.used ≤ a.size := hshows.represents.position_le
    have := recordSize_pos
    rw [Nat.mul_add, Nat.mul_one] at hi
    simp only [Segment.span] at happart
    omega
  · intro offset
    rw [h.isSome_read_iff, List.mem_flatMap]
    simp only [Segment.mem_writtenOffsets_iff]
  · rw [Store.used_eq, Segment.usedIn_eq h.atRest.represents]

end Records

/-! ## Histories of a new store -/

/-- The segments of a new buffer lie one behind the other. -/
theorem pairwise_span_new (capacity count : Nat) :
    ((SegmentedBuffer.new capacity count).segments.toList.map Segment.span).Pairwise
      fun a b => a.2 ≤ b.1 := by
  rw [List.pairwise_map, SegmentedBuffer.new, Array.toList_ofFn, List.pairwise_ofFn]
  intro i j hij
  have hlast : i.val + 1 ≠ count := by omega
  have hstarts := Nat.mul_le_mul_right (SegmentedBuffer.segmentSize capacity count)
    (show i.val + 1 ≤ j.val from hij)
  rw [Nat.add_mul, Nat.one_mul] at hstarts
  simpa [Segment.span, Segment.size, Segment.new, Region.new, Region.capacity, Tracker.new,
    hlast] using hstarts

/-- Nothing has landed in a new store. -/
theorem IsNew.records {s : Store} (h : s.IsNew) : s.Records [] := by
  have hrest := h.atRest
  refine ⟨hrest, ?_, ?_⟩
  · cases h with
    | segmented capacity hcount => exact pairwise_span_new capacity _
    | _ => exact List.pairwise_singleton _ _
  · intro segment hsegment
    refine ⟨[], ?_, by simp⟩
    rw [h.region_eq hsegment]
    exact .new segment.size

/-- The orders that a call has written, by its answer. -/
def accepted : Call → Answer → List Order
  | .append order, .flag true => [order]
  | .appendRing order, .flag true => [order]
  | .appendAll orders, .number count => orders.take count
  | _, _ => []

/-- A single order lands exactly if there is a segment for it. -/
theorem map_snd_landings_of_singleton {s : Store} {call : Call} {order : Order}
    (horders : call.orders = [order]) :
    (s.landings call).map Prod.snd = if (s.target? call).isSome then [order] else [] := by
  unfold landings
  cases htarget : s.target? call with
  | none => rfl
  | some index =>
    obtain ⟨segment, hsegment, hhold⟩ := canHoldRecord_of_target? htarget
    rw [← Region.hasRoom_makeRoom, Region.hasRoom_iff_room_pos] at hhold
    rw [Option.bind_some, hsegment]
    dsimp only
    rw [Segment.map_snd_landings, horders, List.take_of_length_le hhold]
    rfl

/-- What lands is what the answer says. -/
theorem map_snd_landings {s : Store} (h : s.AtRest) (call : Call) :
    (s.landings call).map Prod.snd = accepted call (s.perform call).1 := by
  cases call with
  | append order =>
    change _ = accepted (.append order) (.flag (s.append order).1)
    rw [map_snd_landings_of_singleton rfl, append_fst h.quiet]
    cases (s.target? (.append order)).isSome <;> rfl
  | appendAll orders =>
    change _ = orders.take (s.appendAll orders).1
    rw [appendAll_fst h.quiet, landings]
    cases (s.target? (.appendAll orders)).bind (s.segments[·]?) with
    | none => rfl
    | some segment =>
      dsimp only
      rw [Segment.map_snd_landings, Segment.length_landings, Nat.min_comm]
      exact List.take_eq_take_min
  | appendRing order =>
    change _ = accepted (.appendRing order) (.flag (s.appendRing order).1)
    rw [map_snd_landings_of_singleton rfl, appendRing_fst h.quiet]
    cases (s.target? (.appendRing order)).isSome <;> rfl
  | _ => cases s <;> rfl

/-- The orders that a history of calls has written, by its answers. -/
def acceptedAll : List Call → List Answer → List Order
  | call :: calls, answer :: answers => accepted call answer ++ acceptedAll calls answers
  | _, _ => []

/-- The log lists the orders that the answers say are written, in their order. -/
theorem map_snd_landed {s : Store} (h : s.AtRest) (calls : List Call) :
    (s.landed calls).map Prod.snd = acceptedAll calls (s.answers calls) := by
  induction calls generalizing s with
  | nil => rfl
  | cons call calls ih =>
    rw [landed, List.map_append, map_snd_landings h, ih (h.perform call)]
    rfl

/-- A store with any strategy reads back what was written to it. After every
history of calls that are made one after another, a read finds an order exactly
at the slots below the positions of the segments; it is the order that landed
there last, whole but for its symbol, which is cut; and as many records are used
as there are such offsets. -/
theorem readBack {s : Store} (hnew : s.IsNew) (calls : List Call) :
    (∀ offset, ((s.after calls).read offset).isSome ↔
        ∃ segment ∈ (s.after calls).segments, ∃ i, offset = segment.start + recordSize * i ∧
          recordSize * (i + 1) ≤ segment.region.used) ∧
      (∀ offset order, (s.after calls).read offset = some order →
        ∃ original, latest (s.landed calls) offset = some original ∧
          order = { original with symbol := truncateSymbol original.symbol }) ∧
      (s.landed calls).map Prod.snd = acceptedAll calls (s.answers calls) ∧
      ∃ offsets : List Nat, offsets.Nodup ∧
        (∀ offset, offset ∈ offsets ↔ ((s.after calls).read offset).isSome) ∧
        (s.after calls).used = recordSize * offsets.length := by
  have hrecords := hnew.records.after calls
  rw [List.nil_append] at hrecords
  exact ⟨hrecords.isSome_read_iff, fun _ _ => hrecords.latest_of_read,
    map_snd_landed hnew.atRest calls, hrecords.used_eq⟩

/-- Reading back from three segments, the middle one of which is recycled. -/
theorem readBack_three_segments :
    (segmented (.new 192 3)).IsNew ∧
      ∃ offsets : List Nat, offsets.Nodup ∧
        (∀ offset, offset ∈ offsets ↔
          (((segmented (.new 192 3)).after [.append {}, .appendAll [{}, {}], .appendRing {},
            .appendRing {}]).read offset).isSome) ∧
        ((segmented (.new 192 3)).after [.append {}, .appendAll [{}, {}], .appendRing {},
          .appendRing {}]).used = recordSize * offsets.length :=
  ⟨.segmented 192 (by decide), (readBack (.segmented 192 (by decide)) _).2.2.2⟩

end Store

end OrderStore
