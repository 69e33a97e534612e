import OrderStore.Proofs.Optimistic.Build
import OrderStore.Proofs.Segmented.Build

/-!
# Stores in machine words

A store with any strategy, with the checks of a build. Every position that a call leaves
behind is a whole number of records within its region, and a region is as large as its
arena. From this no check fails in the next call, so that the builds cannot be told
apart, and a record that is reported as written has come into the arena.
-/

namespace OrderStore

/-- The region holds whole records after a call if it does before. -/
theorem Region.Represents.after {r : Region} {orders : List Order} (h : r.Represents orders)
    (call : Call) : ∃ orders, (r.after call).Represents orders := by
  by_cases hreset : call = .reset
  · subst hreset
    exact ⟨[], h.clear⟩
  by_cases hforce : call = .forceReset
  · subst hforce
    exact ⟨[], h.rewind⟩
  cases hadmits : r.admits call with
  | true =>
    rw [Region.after_of_admits hadmits]
    exact ⟨_, h.makeRoom.pushAll call.orders⟩
  | false =>
    rw [Region.after_of_refused hadmits hreset hforce]
    exact ⟨orders, h⟩

namespace Store

/-- A store of `capacity` bytes, in `count` segments or under `policy` if it has any, with
every position where a record can start or at the end of the last one. -/
inductive Bounded (capacity count : Nat) (policy : RetryPolicy) : Store → Prop where
  /-- A region under a lock. -/
  | exclusive {r : Region} {orders : List Order} (records : r.Represents orders)
    (size : r.capacity = capacity) : Bounded capacity count policy (.exclusive r)
  /-- A lock-free buffer. -/
  | optimistic {b : OptimisticBuffer} (sound : b.Sound ⟨capacity, policy⟩) :
    Bounded capacity count policy (.optimistic b)
  /-- A region under a lock that readers share. -/
  | readWrite {r : Region} {orders : List Order} (records : r.Represents orders)
    (size : r.capacity = capacity) : Bounded capacity count policy (.readWrite r)
  /-- A segmented buffer. -/
  | segmented {b : SegmentedBuffer} (reachable : b.Reachable capacity count) :
    Bounded capacity count policy (.segmented b)

/-- The orders lie one behind the other in the arena of a segment, below its position. -/
def Holds (s : Store) (orders : List Order) : Prop :=
  ∃ segment ∈ s.segments, ∃ first, first + orders.length * recordSize ≤ segment.region.used ∧
    ∀ {i : Nat} {order : Order}, orders[i]? = some order →
      segment.region.arena.read (first + i * recordSize) = some (encode order)

end Store

namespace Build

open Store

/-- An empty store. -/
def new (build : Build) (strategy : Strategy) (capacity count : Nat) (policy : RetryPolicy) :
    Except Fault Store :=
  match strategy with
  | .segmented => segmented <$> build.segmentedNew capacity count
  | _ => .ok (.new strategy capacity count policy)

/-- Appends an order; answers whether there was room. -/
def append (build : Build) : Store → Order → Except Fault (Bool × Store)
  | exclusive r, order => Prod.map id exclusive <$> build.push r (encode order)
  | optimistic b, order => Prod.map id optimistic <$> build.optimisticAppend b order
  | readWrite r, order => Prod.map id readWrite <$> build.push r (encode order)
  | segmented b, order => Prod.map id segmented <$> build.segmentedAppend b order

/-- Appends orders up to the first that does not fit; answers how many were written. -/
def appendAll (build : Build) : Store → List Order → Except Fault (Nat × Store)
  | exclusive r, orders => Prod.map id exclusive <$> build.pushAll r orders
  | optimistic b, orders => Prod.map id optimistic <$> build.optimisticAppendAll b orders
  | readWrite r, orders => Prod.map id readWrite <$> build.pushAll r orders
  | segmented b, orders => Prod.map id segmented <$> build.segmentedAppendAll b orders

/-- Appends an order, overwriting old ones in a full store; answers whether it was
written. -/
def appendRing (build : Build) : Store → Order → Except Fault (Bool × Store)
  | exclusive r, order => Prod.map id exclusive <$> build.pushOver r (encode order)
  | optimistic b, order => Prod.map id optimistic <$> build.optimisticAppendRing b order
  | readWrite r, order => Prod.map id readWrite <$> build.pushOver r (encode order)
  | segmented b, order => Prod.map id segmented <$> build.segmentedAppendRing b order

/-- Bytes written. -/
def used (build : Build) : Store → Except Fault Nat
  | segmented b => build.usedIn 0 b.segments.toList
  | s => .ok s.used

/-- Bytes still free. -/
def remaining (build : Build) : Store → Except Fault Nat
  | readWrite r => .ok r.tracker.remaining
  | s => do
    let used ← build.used s
    .ok (s.capacity - used)

/-- Makes one call. A read finds out by itself whether a record that starts at the offset
ends below the position, and a reset forms no sum. -/
def perform (build : Build) (s : Store) : Call → Except Fault (Answer × Store)
  | .append order => Prod.map .flag id <$> build.append s order
  | .appendAll orders => Prod.map .number id <$> build.appendAll s orders
  | .appendRing order => Prod.map .flag id <$> build.appendRing s order
  | .used => do
    let used ← build.used s
    .ok (.number used, s)
  | .remaining => do
    let remaining ← build.remaining s
    .ok (.number remaining, s)
  | .remainingRecords => do
    let remaining ← build.remaining s
    .ok (.number (remaining / recordSize), s)
  | .status => do
    let used ← build.used s
    .ok (.status ⟨used, s.capacity - used, s.capacity⟩, s)
  | .isNearFull threshold => do
    let used ← build.used s
    .ok (.flag (threshold.below (.ofMagnitude (utilisation used s.capacity))), s)
  | call => .ok (s.perform call)

/-- Makes calls one after another. -/
def performAll (build : Build) (s : Store) : List Call → Except Fault (List Answer × Store)
  | [] => .ok ([], s)
  | call :: calls => do
    let (answer, s) ← build.perform s call
    let (answers, s) ← build.performAll s calls
    .ok (answer :: answers, s)

/-- Makes calls one after another on an empty store. -/
def history (build : Build) (strategy : Strategy) (capacity count : Nat) (policy : RetryPolicy)
    (calls : List Call) : Except Fault (List Answer × Store) := do
  let s ← build.new strategy capacity count policy
  build.performAll s calls

end Build

/-! ## Positions within their regions -/

namespace Store

variable {capacity count : Nat} {policy : RetryPolicy} {s : Store}

/-- An empty store is bounded. -/
theorem bounded_new (strategy : Strategy) (capacity count : Nat) (policy : RetryPolicy) :
    (new strategy capacity count policy).Bounded capacity count policy := by
  cases strategy with
  | exclusive => exact .exclusive (.new capacity) rfl
  | optimistic =>
    exact .optimistic ⟨rfl, Arena.capacity_new capacity, rfl, Nat.zero_mod _, Nat.zero_le _⟩
  | readWrite => exact .readWrite (.new capacity) rfl
  | segmented => exact .segmented .new

namespace Bounded

/-- Every position is a whole number of records within its region, and every region has
as many bytes as it counts on. -/
theorem region_bounds (h : s.Bounded capacity count policy) (hcount : 1 ≤ count)
    {segment : Segment} (hsegment : segment ∈ s.segments) :
    recordSize ∣ segment.region.used ∧ segment.region.used ≤ segment.size ∧
      segment.region.arena.capacity = segment.size := by
  have hrepresents {r : Region} {orders : List Order} (h : r.Represents orders) :
      recordSize ∣ r.used ∧ r.used ≤ r.capacity ∧ r.arena.capacity = r.capacity :=
    ⟨h.used ▸ Nat.dvd_mul_left .., h.position_le, h.arena_capacity⟩
  cases h with
  | exclusive records size =>
    obtain rfl := List.mem_singleton.mp hsegment
    exact hrepresents records
  | @optimistic b sound =>
    obtain rfl := List.mem_singleton.mp hsegment
    obtain rfl : b.tracker.capacity = capacity := sound.tracker_capacity
    exact ⟨Nat.dvd_of_mod_eq_zero sound.aligned, sound.position_le, sound.arena_capacity⟩
  | readWrite records size =>
    obtain rfl := List.mem_singleton.mp hsegment
    exact hrepresents records
  | segmented reachable =>
    obtain ⟨log, hrecords⟩ := reachable.exists_records hcount
    obtain ⟨orders, horders⟩ := hrecords.atRest.represents segment hsegment
    exact hrepresents horders

/-- Every call leaves the positions within their regions. -/
theorem perform (h : s.Bounded capacity count policy) (call : Call) :
    (s.perform call).2.Bounded capacity count policy := by
  cases h with
  | @exclusive r orders records size =>
    obtain ⟨after, hafter⟩ := records.after call
    have hsize := (r.capacity_after call).trans size
    cases call <;> exact .exclusive hafter hsize
  | @optimistic b sound =>
    cases call with
    | append order => exact .optimistic (sound.append order)
    | appendAll orders => exact .optimistic (sound.appendAll orders)
    | appendRing order => exact .optimistic (sound.appendRing order)
    | reset => exact .optimistic sound.clear
    | forceReset => exact .optimistic sound.rewind
    | _ => exact .optimistic sound
  | @readWrite r orders records size =>
    obtain ⟨after, hafter⟩ := records.after call
    have hsize := (r.capacity_after call).trans size
    cases call <;> exact .readWrite hafter hsize
  | @segmented b reachable =>
    obtain ⟨b', hnext⟩ : ∃ b', ((Store.segmented b).perform call).2 = .segmented b' := by
      cases call <;> exact ⟨_, rfl⟩
    rw [hnext]
    exact .segmented (reachable.perform call hnext)

/-- So does a history of calls. -/
theorem after (h : s.Bounded capacity count policy) (calls : List Call) :
    (s.after calls).Bounded capacity count policy := by
  induction calls generalizing s with
  | nil => exact h
  | cons call calls ih => exact ih (h.perform call)

/-- The bytes used are words, however many segments they are summed over. -/
theorem used_le (h : s.Bounded capacity count policy) (hcount : 1 ≤ count) :
    s.used ≤ capacity := by
  cases h with
  | exclusive records size => exact size ▸ records.position_le
  | optimistic sound => exact sound.position_le
  | readWrite records size => exact size ▸ records.position_le
  | segmented reachable =>
    have hused := (reachable.measured hcount).used_add_roomIn
    have hslots := Nat.mul_div_le capacity recordSize
    omega

end Bounded

end Store

/-! ## Checks that do not fail -/

namespace Build

open Store

variable (build : Build) {capacity count : Nat} {policy : RetryPolicy} {s : Store}

theorem new_eq (hsmall : capacity < 2 ^ 63) (strategy : Strategy) (count : Nat)
    (policy : RetryPolicy) :
    build.new strategy capacity count policy = .ok (.new strategy capacity count policy) := by
  cases strategy with
  | segmented =>
    rw [new, build.segmentedNew_eq hsmall]
    rfl
  | _ => rfl

section Bounded

variable (h : s.Bounded capacity count policy) (hcount : 1 ≤ count) (hsmall : capacity < 2 ^ 63)

include h hcount hsmall

theorem append_eq (order : Order) : build.append s order = .ok (s.append order) := by
  cases h with
  | exclusive records size =>
    rw [append, build.push_eq records (size ▸ hsmall)]
    rfl
  | optimistic sound =>
    rw [append, build.optimisticAppend_eq hsmall sound]
    rfl
  | readWrite records size =>
    rw [append, build.push_eq records (size ▸ hsmall)]
    rfl
  | segmented reachable =>
    rw [append, build.segmentedAppend_eq reachable hcount hsmall]
    rfl

theorem appendAll_eq (orders : List Order) :
    build.appendAll s orders = .ok (s.appendAll orders) := by
  cases h with
  | exclusive records size =>
    rw [appendAll, build.pushAll_eq records (size ▸ hsmall)]
    rfl
  | optimistic sound =>
    rw [appendAll, build.optimisticAppendAll_eq hsmall sound]
    rfl
  | readWrite records size =>
    rw [appendAll, build.pushAll_eq records (size ▸ hsmall)]
    rfl
  | segmented reachable =>
    rw [appendAll, build.segmentedAppendAll_eq reachable hcount hsmall]
    rfl

theorem appendRing_eq (order : Order) : build.appendRing s order = .ok (s.appendRing order) := by
  cases h with
  | exclusive records size =>
    rw [appendRing, build.pushOver_eq records (size ▸ hsmall)]
    rfl
  | optimistic sound =>
    rw [appendRing, build.optimisticAppendRing_eq hsmall sound]
    rfl
  | readWrite records size =>
    rw [appendRing, build.pushOver_eq records (size ▸ hsmall)]
    rfl
  | segmented reachable =>
    rw [appendRing, build.segmentedAppendRing_eq reachable hcount hsmall]
    rfl

theorem used_eq : build.used s = .ok s.used := by
  have hused := h.used_le hcount
  cases h with
  | @segmented b reachable =>
    rw [Store.used_eq, segments] at hused ⊢
    have hword : capacity < 2 ^ 64 := by omega
    have hsum := build.usedIn_eq 0 hword b.segments.toList
    rw [Nat.zero_add] at hsum
    exact hsum hused
  | _ => rfl

theorem remaining_eq : build.remaining s = .ok s.remaining := by
  have hused := build.used_eq h hcount hsmall
  cases h with
  | readWrite records size => rfl
  | _ =>
    simp only [remaining, hused]
    rfl

/-- No check fails in a call. -/
theorem perform_eq (call : Call) : build.perform s call = .ok (s.perform call) := by
  have hused := build.used_eq h hcount hsmall
  have hremaining := build.remaining_eq h hcount hsmall
  cases call with
  | append order => rw [perform, build.append_eq h hcount hsmall]; rfl
  | appendAll orders => rw [perform, build.appendAll_eq h hcount hsmall]; rfl
  | appendRing order => rw [perform, build.appendRing_eq h hcount hsmall]; rfl
  | used => rw [perform, hused]; rfl
  | remaining => rw [perform, hremaining]; rfl
  | remainingRecords => rw [perform, hremaining]; rfl
  | status => rw [perform, hused]; rfl
  | isNearFull threshold => rw [perform, hused]; rfl
  | _ => rfl

end Bounded

/-- No check fails in a history of calls. -/
theorem performAll_eq (h : s.Bounded capacity count policy) (hcount : 1 ≤ count)
    (hsmall : capacity < 2 ^ 63) (calls : List Call) :
    build.performAll s calls = .ok (s.performAll calls) := by
  induction calls generalizing s with
  | nil => rfl
  | cons call calls ih =>
    have hrest := ih (h.perform call)
    rw [performAll, build.perform_eq h hcount hsmall, Fault.ok_bind]
    dsimp only
    rw [hrest, Fault.ok_bind]
    rfl

end Build

/-! ## Records that are reported -/

namespace Store

variable {s : Store} {log : List (Nat × Order)} {retries : UInt32}

theorem holds_nil {segment : Segment} (h : segment ∈ s.segments) : s.Holds [] :=
  ⟨segment, h, 0, Nat.zero_le _, fun horder => by simp at horder⟩

/-- What a call reports as written lies in a segment. -/
theorem Records.holds_accepted (h : s.Records log) (hsegments : 0 < s.segments.length)
    (call : Call) : (s.perform call).2.Holds (accepted call (s.perform call).1) := by
  rw [← map_snd_landings h.atRest call]
  cases htarget : s.target? call with
  | none =>
    have hnone : s.landings call = [] := by rw [landings, htarget, Option.bind_none]
    have hlength := length_segments_perform h.atRest.quiet call
    rw [hnone]
    exact holds_nil (List.getElem_mem (hlength ▸ hsegments))
  | some index =>
    obtain ⟨segment, hsegment, -⟩ := canHoldRecord_of_target? htarget
    have hmem : segment.receive call.orders ∈ (s.perform call).2.segments := by
      rw [segments_perform_of_target h.atRest.quiet htarget]
      exact mem_modify hsegment (·.receive call.orders)
    obtain ⟨shown, hshown⟩ := h.shows segment (List.mem_of_getElem? hsegment)
    obtain ⟨kept, -, hreceived⟩ := hshown.receive call.orders
    have hrepresents := hreceived.represents
    rw [landings_of_target htarget hsegment, Segment.map_snd_landings]
    refine ⟨_, hmem, kept.length * recordSize, ?_, fun {i order} horder => ?_⟩
    · rw [hrepresents.used, List.length_append, Nat.add_mul]
    · rw [← Nat.add_mul]
      apply hrepresents.read_slot
      rw [List.getElem?_append_right (Nat.le_add_right ..), Nat.add_sub_cancel_left, horder]

/-- How often a read is tried is nothing to what is written. -/
theorem accepted_retrying (h : s.Attempts) (call : Call) :
    accepted call ((s.retrying retries).perform call).1 = accepted call (s.perform call).1 := by
  cases s with
  | optimistic b =>
    cases call with
    | append order =>
      exact congrArg (fun result => accepted (.append order) (.flag result.1))
        (append_retrying h order)
    | appendAll orders =>
      change orders.take (OptimisticBuffer.appendAll _ orders).1 =
        orders.take (b.appendAll orders).1
      rw [OptimisticBuffer.appendAll_eq orders h, OptimisticBuffer.appendAll_eq orders (by exact h)]
      rfl
    | appendRing order =>
      change accepted (.appendRing order) (.flag (OptimisticBuffer.appendRing _ order).1) =
        accepted (.appendRing order) (.flag (b.appendRing order).1)
      rw [OptimisticBuffer.appendRing_eq order h,
        OptimisticBuffer.appendRing_eq order (by exact h)]
      rfl
    | _ => rfl
  | _ => cases call <;> rfl

/-- Without attempts nothing is reported as written. -/
theorem accepted_of_no_attempts (h : ¬ s.Attempts) (call : Call) :
    accepted call (s.perform call).1 = [] := by
  cases s with
  | optimistic b =>
    have hnone : b.policy.maxAttempts.toNat = 0 := Nat.eq_zero_of_not_pos h
    cases call with
    | append order =>
      change accepted (.append order) (.flag (b.append order).1) = []
      rw [OptimisticBuffer.append_of_no_attempts order hnone]
      rfl
    | appendAll orders =>
      change orders.take (b.appendAll orders).1 = []
      rw [OptimisticBuffer.appendAll_of_no_attempts orders hnone]
      rfl
    | appendRing order =>
      change accepted (.appendRing order) (.flag (b.appendRing order).1) = []
      rw [OptimisticBuffer.appendRing_of_no_attempts order hnone]
      rfl
    | _ => rfl
  | _ => exact absurd trivial h

/-- Whether writes get an attempt or not, what a call reports as written lies in a
segment. -/
theorem holds_accepted (strategy : Strategy) (capacity : Nat) {count : Nat} {policy : RetryPolicy}
    (hcount : 1 ≤ count) (calls : List Call) (call : Call) :
    let s := (new strategy capacity count policy).after calls
    (s.perform call).2.Holds (accepted call (s.perform call).1) := by
  intro s
  by_cases hattempts : (new strategy capacity count policy).Attempts
  · have hs : s.Attempts := (attempts_after calls).mpr hattempts
    have hnew := isNew_retrying strategy capacity hcount hattempts
    have hsegments := length_segments_after hnew.atRest.quiet calls
    have hholds := (hnew.records.after calls).holds_accepted (hsegments ▸ hnew.segments_pos) call
    rw [after_retrying hattempts, accepted_retrying hs, perform_retrying hs] at hholds
    unfold Holds at hholds ⊢
    rwa [segments_retrying] at hholds
  · have hs : ¬ s.Attempts := mt (attempts_after calls).mp hattempts
    have hnext : ¬ (s.perform call).2.Attempts := mt (attempts_perform call).mp hs
    rw [accepted_of_no_attempts hs call]
    generalize (s.perform call).2 = next at hnext
    cases next with
    | optimistic b => exact holds_nil (List.mem_singleton_self _)
    | _ => exact absurd trivial hnext

end Store

/-- No check of any build fails, so that a build without them does the same. For every
strategy, every capacity below `2 ^ 63`, every number of segments and every history of
calls that are made one after another, no number that is formed is too large for a word,
no position that is published lies past the end of its region or between two slots, and
the arena refuses no record. After the history each position is a whole number of records
within its region, which is as large as its arena; and what the next call reports as
written lies in a segment, byte for byte. -/
theorem Build.no_check_fails (strategy : Strategy) {capacity count : Nat} {policy : RetryPolicy}
    (hsmall : capacity < 2 ^ 63) (hcount : 1 ≤ count) (calls : List Call) :
    let s := Store.new strategy capacity count policy
    (∀ build : Build,
        build.history strategy capacity count policy calls = .ok (s.performAll calls)) ∧
      (∀ segment ∈ (s.after calls).segments, recordSize ∣ segment.region.used ∧
        segment.region.used ≤ segment.size ∧ segment.region.arena.capacity = segment.size) ∧
      ∀ call, ((s.after calls).perform call).2.Holds
        (Store.accepted call ((s.after calls).perform call).1) := by
  intro s
  have hnew : s.Bounded capacity count policy := Store.bounded_new strategy capacity count policy
  refine ⟨fun build => ?_, fun segment hsegment => ?_,
    Store.holds_accepted strategy capacity hcount calls⟩
  · rw [history, build.new_eq hsmall, Fault.ok_bind]
    exact build.performAll_eq hnew hcount hsmall calls
  · exact (hnew.after calls).region_bounds hcount hsegment

/-- No check fails in three segments of 200 bytes, the last one with some to spare, of
which one is recycled. -/
theorem Build.no_check_fails_recycled :
    200 < 2 ^ 63 ∧ 1 ≤ 3 ∧
      let calls := [.append {}, .appendAll [{}, {}], .append {}, .appendRing {}, .used]
      Build.strict.history .segmented 200 3 {} calls =
        .ok ((Store.new .segmented 200 3 {}).performAll calls) ∧
      (Store.new .segmented 200 3 {}).answers calls =
        [.flag true, .number 1, .flag true, .flag true, .number 192] :=
  ⟨by decide, by decide, (Build.no_check_fails .segmented (by decide) (by decide) _).1 .strict,
    by decide +kernel⟩

end OrderStore
