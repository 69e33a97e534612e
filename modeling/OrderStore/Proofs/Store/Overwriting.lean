import OrderStore.Proofs.Segmented.Turns
import OrderStore.Proofs.Store.ReadBack
import OrderStore.Proofs.Store.Room

/-!
# The order in which slots are overwritten

Once a store is full for the first time, its slots are overwritten in the order of
their offsets, again and again, with every strategy: at most one segment has room
then, the next to be emptied is the one behind it, and segments that could not hold
a record are passed over. A store with a single cursor is the case of one segment.
-/

namespace OrderStore

namespace Store

/-! ## Looking for a segment to empty -/

/-- How many segments the next call looks at to find one that it can empty. -/
def recyclings : Store → Call → Nat
  | segmented b, .appendRing _ =>
    if b.nextWithRoom?.isSome then 0 else b.seekLength b.segments.size b.recycleCursor
  | _, _ => 0

/-- How many segments a history of calls looks at to find ones that it can empty. -/
def recyclingsIn (s : Store) : List Call → Nat
  | [] => 0
  | call :: calls => s.recyclings call + (s.perform call).2.recyclingsIn calls

/-- A store that has been full, since when `written` records were written in `turn`
turns of its segments. -/
structure Overwriting (s : Store) (capacity turn written : Nat) : Prop where
  /-- The store has that size. -/
  measured : s.Measured capacity
  /-- There is at least one segment. -/
  segments_pos : 0 < s.segments.length
  /-- The segments are filled in turn. -/
  turned : Segment.Turned s.segments turn written
  /-- The recycling cursor counts the turns. -/
  cursor_eq : s.strategy = .segmented → s.counters.2 = .ofNat turn

/-- With a single cursor there is nothing to look for. -/
theorem recyclings_of_ne {s : Store} (hstrategy : s.strategy ≠ .segmented) (call : Call) :
    s.recyclings call = 0 := by
  cases s with
  | segmented b => exact absurd rfl hstrategy
  | _ => rfl

/-- An overwriting append goes where an append goes, if there is room. -/
theorem target?_appendRing_of_room {s : Store} (order : Order)
    (hroom : 0 < Segment.roomIn s.segments) :
    s.target? (.appendRing order) = s.target? (.append order) ∧
      s.recyclings (.appendRing order) = 0 := by
  have hsome := (isSome_target?_append_iff order).mpr hroom
  rcases s.cases_strategy with ⟨b, rfl⟩ | ⟨hstrategy, r, hr⟩
  · have hsome : b.nextWithRoom?.isSome = true := hsome
    obtain ⟨index, hindex⟩ := Option.isSome_iff_exists.mp hsome
    refine ⟨?_, if_pos hsome⟩
    change b.nextForRing? = b.nextWithRoom?
    rw [SegmentedBuffer.nextForRing?, hindex]
  · have hadmits : r.hasRoom = true := (hr.isSome_target? (.append order)).symm.trans hsome
    refine ⟨?_, recyclings_of_ne hstrategy _⟩
    rw [hr.target?_eq, hr.target?_eq, Region.target?, Region.target?, Region.admits, Region.admits,
      hadmits, Region.canHoldRecord_of_hasRoom hadmits]

/-- Any other call looks for no segment to empty, and goes where there is room. -/
theorem recyclings_eq_zero {s : Store} {call : Call}
    (h : ¬ ∃ order, call = .appendRing order ∧ Segment.roomIn s.segments = 0) :
    s.recyclings call = 0 ∧ ∀ index, s.target? call = some index →
      ∃ segment, s.segments[index]? = some segment ∧ segment.region.hasRoom = true := by
  by_cases hring : ∃ order, call = .appendRing order
  · obtain ⟨order, rfl⟩ := hring
    have hroom : 0 < Segment.roomIn s.segments :=
      Nat.pos_of_ne_zero fun hzero => h ⟨order, rfl, hzero⟩
    obtain ⟨hsame, hzero⟩ := target?_appendRing_of_room order hroom
    refine ⟨hzero, fun index htarget => ?_⟩
    rw [hsame] at htarget
    exact hasRoom_of_target? (fun _ h => Call.noConfusion h) htarget
  · have hcall (order : Order) : call ≠ .appendRing order := fun heq => hring ⟨order, heq⟩
    refine ⟨?_, fun index => hasRoom_of_target? hcall⟩
    cases s with
    | segmented b =>
      cases call with
      | appendRing order => exact absurd rfl (hcall order)
      | _ => rfl
    | _ => rfl

namespace Overwriting

variable {s : Store} {capacity turn written : Nat}

/-- Without room an overwriting append looks for a segment to empty, from the one
whose turn it is on. -/
theorem target?_appendRing_of_full (h : s.Overwriting capacity turn written)
    (hfull : Segment.roomIn s.segments = 0) (order : Order)
    (hwrap : s.strategy = .segmented → turn + s.recyclings (.appendRing order) ≤ 2 ^ 64) :
    ∃ skipped, (∀ i < skipped, ∀ segment,
        s.segments[(turn + i) % s.segments.length]? = some segment → segment.region.slots = 0) ∧
      (s.target? (.appendRing order) = some ((turn + skipped) % s.segments.length) ∧
          (s.strategy = .segmented → s.recyclings (.appendRing order) = skipped + 1) ∨
        s.target? (.appendRing order) = none ∧
          (s.strategy = .segmented → s.recyclings (.appendRing order) = skipped)) := by
  rcases s.cases_strategy with ⟨b, rfl⟩ | ⟨hstrategy, r, hr⟩
  · have hnext : b.nextWithRoom? = none :=
      SegmentedBuffer.nextWithRoom?_eq_none_iff.mpr (SegmentedBuffer.roomIn_eq_zero_iff.mp hfull)
    have hturn : b.recycleCursor = .ofNat turn := h.cursor_eq rfl
    have hrecyclings : (segmented b).recyclings (.appendRing order) =
        b.seekLength b.segments.size (.ofNat turn) := by
      rw [recyclings, hnext, hturn]
      rfl
    have htarget : (segmented b).target? (.appendRing order) =
        (b.seekVictim b.segments.size (.ofNat turn)).1 := by
      change b.nextForRing? = _
      rw [SegmentedBuffer.nextForRing?, hnext, hturn]
    have hwrap := hwrap rfl
    rw [hrecyclings] at hwrap
    obtain ⟨-, skipped, hskipped, hcases⟩ := SegmentedBuffer.seekVictim_cases hwrap
    refine ⟨skipped, fun i hi segment hsegment => ?_, ?_⟩
    · have hhold := hskipped i hi
      rw [Bool.eq_false_iff, ne_eq, SegmentedBuffer.canHold_eq_true_iff] at hhold
      rw [segments, Array.getElem?_toList, Array.length_toList] at hsegment
      rw [← Nat.le_zero, ← Nat.not_lt, ← Region.canHoldRecord_iff_slots_pos]
      exact fun hregion => hhold ⟨segment, hsegment, hregion⟩
    · rw [htarget, hrecyclings]
      rcases hcases with ⟨hsome, hlength⟩ | ⟨hnone, -, hlength⟩
      · exact Or.inl ⟨hsome, fun _ => hlength⟩
      · exact Or.inr ⟨hnone, fun _ => hlength⟩
  · refine ⟨0, fun i hi => absurd hi (Nat.not_lt_zero i), ?_⟩
    rw [hr.target?_eq, hr.segments_eq, List.length_singleton, Nat.mod_one, Region.target?]
    split
    · exact Or.inl ⟨rfl, fun h => absurd h hstrategy⟩
    · exact Or.inr ⟨rfl, fun h => absurd h hstrategy⟩

/-- The recycling cursor keeps counting. -/
theorem nextCounters_eq (h : s.Overwriting capacity turn written) (call : Call)
    (hstrategy : s.strategy = .segmented) (hwrap : turn + s.recyclings call ≤ 2 ^ 64) :
    (s.nextCounters call).2 = .ofNat (turn + s.recyclings call) := by
  have hturn := h.cursor_eq hstrategy
  cases s with
  | segmented b =>
    cases call with
    | appendRing order =>
      change b.recycleCursor = _ at hturn
      change b.cursorAfterRing = _
      rw [recyclings] at hwrap ⊢
      rw [SegmentedBuffer.cursorAfterRing]
      cases hnext : b.nextWithRoom? with
      | some index => exact hturn
      | none =>
        rw [hnext, hturn] at hwrap
        rw [hturn]
        exact (SegmentedBuffer.seekVictim_cases hwrap).1
    | _ => exact hturn
  | _ => cases hstrategy

/-- A call keeps to the turns if it does so with its segments and its cursor. -/
theorem next (h : s.Overwriting capacity turn written) {call : Call} {turn' written' : Nat}
    (hturned : Segment.Turned (s.perform call).2.segments turn' written')
    (hcursor : s.strategy = .segmented → (s.nextCounters call).2 = .ofNat turn') :
    (s.perform call).2.Overwriting capacity turn' written' where
  measured := h.measured.perform call
  segments_pos := by
    rw [length_segments_perform h.measured.atRest.quiet]
    exact h.segments_pos
  turned := hturned
  cursor_eq := by
    rw [strategy_perform, counters_perform]
    exact hcursor

/-- A call that chooses no segment writes nothing. -/
theorem perform_of_none (h : s.Overwriting capacity turn written) {call : Call}
    (hreset : call ≠ .reset) (hforce : call ≠ .forceReset) (htarget : s.target? call = none)
    {turn' : Nat} (hturned : Segment.Turned s.segments turn' written)
    (hcursor : s.strategy = .segmented → (s.nextCounters call).2 = .ofNat turn') :
    s.landings call = [] ∧ (s.perform call).2.Overwriting capacity turn' written := by
  have hsame := segments_perform_of_none h.measured.atRest.quiet hreset hforce htarget
  exact ⟨by rw [landings, htarget]; rfl, h.next (by rwa [hsame]) hcursor⟩

/-- A call that chooses a segment with room goes on with its turn. -/
theorem perform_of_room (h : s.Overwriting capacity turn written) {call : Call} {index : Nat}
    {segment : Segment} (htarget : s.target? call = some index)
    (hsegment : s.segments[index]? = some segment) (hroom : segment.region.hasRoom = true)
    (hcursor : s.strategy = .segmented → (s.nextCounters call).2 = .ofNat turn) :
    (s.landings call = ((s.landings call).map Prod.snd).mapIdx fun i order =>
        (recordSize * ((written + i) % (capacity / recordSize)), order)) ∧
      (s.perform call).2.Overwriting capacity turn (written + (s.landings call).length) := by
  obtain ⟨held, hheld⟩ := h.measured.atRest.represents segment (List.mem_of_getElem? hsegment)
  have hlandings := landings_of_target htarget hsegment
  have hsegments := segments_perform_of_target h.measured.atRest.quiet htarget
  refine ⟨?_, h.next ?_ hcursor⟩
  · rw [hlandings, Segment.map_snd_landings, Region.makeRoom_of_room hroom,
      ← h.measured.divide.slotsIn_eq]
    exact h.turned.landings_of_room h.measured.divide hsegment hroom hheld call.orders
  · rw [hsegments, hlandings]
    exact h.turned.receive_of_room hsegment hroom call.orders

/-- An overwriting append that finds no room begins the next turn of a segment that
could hold a record, if there is one. -/
theorem perform_of_full (h : s.Overwriting capacity turn written)
    (hfull : Segment.roomIn s.segments = 0) (order : Order)
    (hwrap : s.strategy = .segmented → turn + s.recyclings (.appendRing order) ≤ 2 ^ 64) :
    (s.landings (.appendRing order) =
        ((s.landings (.appendRing order)).map Prod.snd).mapIdx fun i order =>
          (recordSize * ((written + i) % (capacity / recordSize)), order)) ∧
      ∃ turn', (s.perform (.appendRing order)).2.Overwriting capacity turn'
          (written + (s.landings (.appendRing order)).length) ∧
        (s.strategy = .segmented → turn' = turn + s.recyclings (.appendRing order)) := by
  have hcursor {turn' : Nat} (hmoved : s.strategy = .segmented →
      s.recyclings (.appendRing order) = turn' - turn ∧ turn ≤ turn')
      (hstrategy : s.strategy = .segmented) :
      (s.nextCounters (.appendRing order)).2 = .ofNat turn' := by
    obtain ⟨hmoved, hle⟩ := hmoved hstrategy
    rw [h.nextCounters_eq _ hstrategy (hwrap hstrategy), hmoved]
    congr 1
    omega
  obtain ⟨skipped, hskipped, hcases⟩ := h.target?_appendRing_of_full hfull order hwrap
  have hturned := h.turned.skip hfull h.segments_pos hskipped
  rcases hcases with ⟨htarget, hmoved⟩ | ⟨htarget, hmoved⟩
  · obtain ⟨segment, hsegment, hhold⟩ := canHoldRecord_of_target? htarget
    obtain ⟨held, hheld⟩ := h.measured.atRest.represents segment (List.mem_of_getElem? hsegment)
    have hlandings : s.landings (.appendRing order) =
        [(recordSize * (written % (capacity / recordSize)), order)] := by
      rw [landings_of_target htarget hsegment, ← h.measured.divide.slotsIn_eq]
      exact hturned.landings_of_full hfull h.measured.divide hsegment hhold order
    have hsegments := segments_perform_of_target h.measured.atRest.quiet htarget
    refine ⟨by rw [hlandings]; rfl, turn + skipped + 1, ?_, fun hstrategy => ?_⟩
    · rw [hlandings]
      refine h.next ?_ (hcursor fun hstrategy => ⟨by rw [hmoved hstrategy]; omega, by omega⟩)
      rw [hsegments]
      exact hturned.receive_of_full hfull hsegment hhold hheld order
    · rw [hmoved hstrategy, Nat.add_assoc]
  · have hreset : Call.appendRing order ≠ .reset := nofun
    have hforce : Call.appendRing order ≠ .forceReset := nofun
    obtain ⟨hnone, hafter⟩ := h.perform_of_none hreset hforce htarget hturned
      (hcursor fun hstrategy => ⟨by rw [hmoved hstrategy]; omega, by omega⟩)
    rw [hnone]
    exact ⟨rfl, turn + skipped, hafter, fun hstrategy => by rw [hmoved hstrategy]⟩

/-- A call that does not empty the store writes its orders on the slots that come
next. -/
theorem perform (h : s.Overwriting capacity turn written) {call : Call} (hreset : call ≠ .reset)
    (hforce : call ≠ .forceReset)
    (hwrap : s.strategy = .segmented → turn + s.recyclings call ≤ 2 ^ 64) :
    (s.landings call = ((s.landings call).map Prod.snd).mapIdx fun i order =>
        (recordSize * ((written + i) % (capacity / recordSize)), order)) ∧
      ∃ turn', (s.perform call).2.Overwriting capacity turn' (written + (s.landings call).length) ∧
        (s.strategy = .segmented → turn' = turn + s.recyclings call) := by
  by_cases hempties : ∃ order, call = .appendRing order ∧ Segment.roomIn s.segments = 0
  · obtain ⟨order, rfl, hfull⟩ := hempties
    exact h.perform_of_full hfull order hwrap
  · obtain ⟨hrecyclings, hroom⟩ := recyclings_eq_zero hempties
    have hcursor (hstrategy : s.strategy = .segmented) : (s.nextCounters call).2 = .ofNat turn := by
      rw [h.nextCounters_eq call hstrategy (hwrap hstrategy), hrecyclings, Nat.add_zero]
    rw [hrecyclings]
    cases htarget : s.target? call with
    | none =>
      obtain ⟨hnone, hafter⟩ := h.perform_of_none hreset hforce htarget h.turned hcursor
      rw [hnone]
      exact ⟨rfl, turn, hafter, fun _ => rfl⟩
    | some index =>
      obtain ⟨segment, hsegment, hregion⟩ := hroom index htarget
      obtain ⟨hlandings, hafter⟩ := h.perform_of_room htarget hsegment hregion hcursor
      exact ⟨hlandings, turn, hafter, fun _ => rfl⟩

/-- A history of calls that do not empty the store goes on as they do one by one. -/
theorem after (h : s.Overwriting capacity turn written) {calls : List Call}
    (hcalls : ∀ call ∈ calls, call ≠ .reset ∧ call ≠ .forceReset)
    (hwrap : s.strategy = .segmented → turn + s.recyclingsIn calls ≤ 2 ^ 64) :
    ∃ turn', (s.after calls).Overwriting capacity turn' (written + (s.landed calls).length) ∧
      (s.strategy = .segmented → turn' = turn + s.recyclingsIn calls) := by
  induction calls generalizing s turn written with
  | nil => exact ⟨turn, h, fun _ => rfl⟩
  | cons call calls ih =>
    obtain ⟨hreset, hforce⟩ := hcalls call List.mem_cons_self
    simp only [recyclingsIn] at hwrap
    obtain ⟨-, middle, hperform, hmiddle⟩ := h.perform hreset hforce fun hstrategy => by
      have := hwrap hstrategy
      omega
    obtain ⟨last, hafter, hlast⟩ := ih hperform
      (fun other hother => hcalls other (List.mem_cons_of_mem _ hother)) (by
        rw [strategy_perform]
        intro hstrategy
        have := hwrap hstrategy
        have := hmiddle hstrategy
        omega)
    rw [landed, List.length_append, ← Nat.add_assoc]
    refine ⟨last, hafter, fun hstrategy => ?_⟩
    rw [strategy_perform] at hlast
    have := hlast hstrategy
    have := hmiddle hstrategy
    rw [recyclingsIn]
    omega

end Overwriting

/-! ## The first time a store is full -/

/-- As long as there is room, no segment is emptied. -/
theorem cursor_after_of_room {s : Store} {calls : List Call}
    (hroom : ∀ n < calls.length, 0 < Segment.roomIn (s.after (calls.take n)).segments) :
    (s.after calls).counters.2 = s.counters.2 := by
  induction calls generalizing s with
  | nil => rfl
  | cons call calls ih =>
    have hfirst : (s.nextCounters call).2 = s.counters.2 := by
      have hpos : 0 < Segment.roomIn s.segments := hroom 0 (Nat.succ_pos _)
      cases s with
      | segmented b =>
        cases call with
        | appendRing order =>
          have hsome : b.nextWithRoom?.isSome = true := (isSome_target?_append_iff order).mpr hpos
          obtain ⟨index, hindex⟩ := Option.isSome_iff_exists.mp hsome
          change b.cursorAfterRing = b.recycleCursor
          rw [SegmentedBuffer.cursorAfterRing, hindex]
        | _ => rfl
      | _ => rfl
    have hrest : ((s.perform call).2.after calls).counters.2 = (s.perform call).2.counters.2 := by
      refine ih fun n hn => ?_
      exact hroom (n + 1) (Nat.succ_lt_succ hn)
    calc (s.after (call :: calls)).counters.2
        = ((s.perform call).2.after calls).counters.2 := rfl
      _ = s.counters.2 := by rw [hrest, counters_perform, hfirst]

theorem recyclingsIn_append (s : Store) (calls more : List Call) :
    s.recyclingsIn (calls ++ more) = s.recyclingsIn calls + (s.after calls).recyclingsIn more := by
  induction calls generalizing s with
  | nil => exact (Nat.zero_add _).symm
  | cons call calls ih =>
    rw [List.cons_append, recyclingsIn, recyclingsIn, ih, Nat.add_assoc]
    rfl

/-- A new store that is full for the first time begins to overwrite. -/
theorem IsNew.overwriting {s : Store} (hnew : s.IsNew) {calls : List Call}
    (hfull : (s.after calls).used = recordSize * (s.capacity / recordSize))
    (hfirst : ∀ n < calls.length,
      (s.after (calls.take n)).used ≠ recordSize * (s.capacity / recordSize)) :
    (s.after calls).Overwriting s.capacity 0 0 := by
  have hmeasured := hnew.measured.after calls
  have hnone : Segment.roomIn (s.after calls).segments = 0 := by
    have hslots := hmeasured.used_add_roomIn
    have hpos := recordSize_pos
    have hzero : recordSize * Segment.roomIn (s.after calls).segments = 0 := by omega
    exact (Nat.mul_eq_zero.mp hzero).resolve_left (by omega)
  have hcursor : (s.after calls).counters.2 = s.counters.2 := by
    refine cursor_after_of_room fun n hn => Nat.pos_of_ne_zero fun hzero => hfirst n hn ?_
    have hslots := (hnew.measured.after (calls.take n)).used_add_roomIn
    rwa [hzero, Nat.mul_zero, Nat.add_zero] at hslots
  refine ⟨hmeasured, ?_, .of_full hnone, fun _ => ?_⟩
  · rw [length_segments_after hnew.atRest.quiet]
    exact hnew.segments_pos
  · rw [hcursor]
    cases hnew <;> rfl

/-- With every strategy the slots are overwritten in the order of their offsets.
Count the records from when a new store is full for the first time: whatever calls
write them, as long as none empties the store and the recycling cursor does not
wrap, each lands on the slot with its number, counted round and round, and is read
back there when its call returns. -/
theorem overwrites_in_order (strategy : Strategy) (capacity : Nat) {count : Nat}
    {policy : RetryPolicy} (hcount : 1 ≤ count) (hattempts : 1 ≤ policy.maxAttempts)
    (hretries : 1 ≤ policy.readRetries) {before later : List Call} {call : Call}
    (hfull : ((new strategy capacity count policy).after before).used =
      recordSize * (capacity / recordSize))
    (hfirst : ∀ n < before.length, ((new strategy capacity count policy).after
      (before.take n)).used ≠ recordSize * (capacity / recordSize))
    (hcalls : ∀ other ∈ later ++ [call], other ≠ .reset ∧ other ≠ .forceReset)
    (hwrap : (new strategy capacity count policy).recyclingsIn (before ++ (later ++ [call])) ≤
      2 ^ 64) :
    let full := (new strategy capacity count policy).after before
    let s := full.after later
    let written := (acceptedAll later (full.answers later)).length
    let orders := accepted call (s.perform call).1
    (s.landings call = orders.mapIdx fun i order =>
        (recordSize * ((written + i) % (capacity / recordSize)), order)) ∧
      ∀ i order, orders[i]? = some order →
        (s.perform call).2.read (recordSize * ((written + i) % (capacity / recordSize))) =
          some { order with symbol := truncateSymbol order.symbol } := by
  intro full s written orders
  have hnew := isNew_new strategy capacity hcount hattempts hretries
  have hsize : (new strategy capacity count policy).capacity = capacity := by
    cases strategy <;> rfl
  have hoverwriting : full.Overwriting capacity 0 0 := by
    have h : full.Overwriting (new strategy capacity count policy).capacity 0 0 :=
      hnew.overwriting (by rw [hsize]; exact hfull) (by rw [hsize]; exact hfirst)
    rwa [hsize] at h
  have htotal : full.recyclingsIn later + s.recyclings call ≤ 2 ^ 64 := by
    rw [recyclingsIn_append, recyclingsIn_append] at hwrap
    simp only [recyclingsIn, Nat.add_zero] at hwrap
    exact Nat.le_trans (Nat.le_add_left ..) hwrap
  have hlater (other : Call) (hother : other ∈ later) : other ≠ .reset ∧ other ≠ .forceReset :=
    hcalls other (List.mem_append_left _ hother)
  obtain ⟨turn, hbefore, hturn⟩ := hoverwriting.after hlater fun _ => by omega
  have hwritten : 0 + (full.landed later).length = written := by
    have hmap := congrArg List.length (map_snd_landed (hnew.atRest.after before) later)
    rw [List.length_map] at hmap
    rw [Nat.zero_add, hmap]
  rw [hwritten] at hbefore
  obtain ⟨hreset, hforce⟩ := hcalls call (List.mem_append_right _ (List.mem_singleton_self _))
  obtain ⟨hlandings, -⟩ := hbefore.perform hreset hforce fun hstrategy => by
    rw [strategy_after] at hstrategy
    rw [hturn hstrategy, Nat.zero_add]
    exact htotal
  rw [map_snd_landings hbefore.measured.atRest] at hlandings
  refine ⟨hlandings, fun i order hget => ?_⟩
  have hrecords := (hnew.records.after before).after later
  obtain ⟨hi, rfl⟩ := List.getElem?_eq_some_iff.mp hget
  have hmem : (recordSize * ((written + i) % (capacity / recordSize)), orders[i]) ∈
      s.landings call := by
    rw [hlandings, List.mem_mapIdx]
    exact ⟨i, hi, rfl⟩
  exact hrecords.read_landed hmem

/-- Five slots in three segments, the last one of three slots: of the records written
since the buffer was full, the third goes there. -/
theorem overwrites_in_order_third :
    let calls : List Call := [.appendAll [{}, {}, {}], .append {}, .append {}]
    let s := new .segmented 320 3 {}
    (1 ≤ 3 ∧ 1 ≤ ({} : RetryPolicy).maxAttempts ∧ 1 ≤ ({} : RetryPolicy).readRetries ∧
      (s.after calls).used = recordSize * (320 / recordSize) ∧
      (∀ n < calls.length, (s.after (calls.take n)).used ≠ recordSize * (320 / recordSize)) ∧
      (∀ other ∈ [Call.appendRing {}, .appendRing {}] ++ [.appendRing { id := 8 }],
        other ≠ .reset ∧ other ≠ .forceReset) ∧
      s.recyclingsIn (calls ++ ([.appendRing {}, .appendRing {}] ++ [.appendRing { id := 8 }])) ≤
        2 ^ 64) ∧
    (((s.after calls).after [.appendRing {}, .appendRing {}]).perform
      (.appendRing { id := 8 })).2.read (recordSize * 2) = some { id := 8 } := by
  intro calls s
  have hcount : 1 ≤ 3 := by decide
  have hattempts : 1 ≤ ({} : RetryPolicy).maxAttempts := by decide
  have hretries : 1 ≤ ({} : RetryPolicy).readRetries := by decide
  have hfull : (s.after calls).used = recordSize * (320 / recordSize) := by decide +kernel
  have hfirst : ∀ n < calls.length,
      (s.after (calls.take n)).used ≠ recordSize * (320 / recordSize) := by decide +kernel
  have hcalls : ∀ other ∈ [Call.appendRing {}, .appendRing {}] ++ [.appendRing { id := 8 }],
      other ≠ .reset ∧ other ≠ .forceReset := by decide
  have hwrap : s.recyclingsIn (calls ++ ([.appendRing {}, .appendRing {}] ++
      [.appendRing { id := 8 }])) ≤ 2 ^ 64 := by decide +kernel
  refine ⟨⟨hcount, hattempts, hretries, hfull, hfirst, hcalls, hwrap⟩, ?_⟩
  have hwritten : (acceptedAll [.appendRing {}, .appendRing {}]
      ((s.after calls).answers [.appendRing {}, .appendRing {}])).length = 2 := by decide +kernel
  have horder : (accepted (.appendRing { id := 8 }) (((s.after calls).after
      [.appendRing {}, .appendRing {}]).perform (.appendRing { id := 8 })).1)[0]? =
        some { id := 8 } := by decide +kernel
  have hstored : { ({ id := 8 } : Order) with symbol := truncateSymbol "" } = { id := 8 } := by
    decide +kernel
  have hread := (overwrites_in_order .segmented 320 hcount hattempts hretries hfull hfirst hcalls
    hwrap).2 0 { id := 8 } horder
  rw [hwritten, hstored] at hread
  exact hread

end Store

end OrderStore
