import OrderStore.Proofs.Segmented.Layout
import OrderStore.Proofs.Store.AtRest

/-!
# Reported room is usable room

The room of a store is scattered over its segments, yet it is as large as in one
piece, and an append fails only if no segment has any. So as many further appends
are successful as the store says records still fit, and after these every append
fails and leaves the store as it is.
-/

namespace OrderStore

namespace Store

/-! ## Room for one more record -/

/-- An append finds a segment if any has room. -/
theorem isSome_target?_append_iff {s : Store} (order : Order) :
    (s.target? (.append order)).isSome = true ↔ 0 < Segment.roomIn s.segments := by
  rcases s.cases_strategy with ⟨b, rfl⟩ | ⟨-, r, hr⟩
  · change b.nextWithRoom?.isSome = true ↔ 0 < Segment.roomIn b.segments.toList
    rw [← Option.ne_none_iff_isSome, ne_eq, SegmentedBuffer.nextWithRoom?_eq_none_iff,
      ← SegmentedBuffer.roomIn_eq_zero_iff, Nat.pos_iff_ne_zero]
  · rw [hr.isSome_target?, hr.segments_eq, Segment.roomIn_pos_iff, Region.admits]
    simp

/-- While there is room an append is successful and takes one slot. -/
theorem append_of_room {s : Store} (h : s.AtRest) (order : Order)
    (hroom : 0 < Segment.roomIn s.segments) :
    (s.append order).1 = true ∧
      Segment.roomIn (s.append order).2.segments + 1 = Segment.roomIn s.segments := by
  have hsome := (isSome_target?_append_iff order).mpr hroom
  refine ⟨(append_fst h.quiet order).trans hsome, ?_⟩
  obtain ⟨index, htarget⟩ := Option.isSome_iff_exists.mp hsome
  obtain ⟨segment, hsegment, hregion⟩ := hasRoom_of_target? (fun _ h => Call.noConfusion h) htarget
  have hnext : (s.append order).2.segments = s.segments.modify index (·.receive [order]) :=
    segments_perform_of_target h.quiet htarget
  have hmodify := Segment.roomIn_modify hsegment (·.receive [order])
  have hpush := Region.room_pushAll segment.region [order]
  have hfits := Region.hasRoom_iff_room_pos.mp hregion
  rw [Region.pushAll_fst, List.length_singleton] at hpush
  simp only [Segment.receive, Region.makeRoom_of_room hregion] at hmodify
  rw [hnext]
  simp only [Segment.receive] at hmodify ⊢
  omega

/-- Without room an append fails and leaves every segment as it is. -/
theorem append_of_full {s : Store} (h : s.AtRest) (order : Order)
    (hfull : Segment.roomIn s.segments = 0) :
    (s.append order).1 = false ∧ (s.append order).2.segments = s.segments := by
  have hnone : s.target? (.append order) = none := by
    rw [← Option.not_isSome_iff_eq_none, isSome_target?_append_iff]
    omega
  have hreset : Call.append order ≠ .reset := nofun
  have hforce : Call.append order ≠ .forceReset := nofun
  exact ⟨by rw [append_fst h.quiet, hnone]; rfl,
    segments_perform_of_none h.quiet hreset hforce hnone⟩

/-- Of any number of appends the first ones are successful, as many as there is
room for, and the others fail. -/
theorem answers_append {s : Store} (h : s.AtRest) (orders : List Order) :
    s.answers (orders.map .append) =
        List.replicate (min orders.length (Segment.roomIn s.segments)) (.flag true) ++
          List.replicate (orders.length - Segment.roomIn s.segments) (.flag false) ∧
      Segment.roomIn (s.after (orders.map .append)).segments =
        Segment.roomIn s.segments - orders.length := by
  induction orders generalizing s with
  | nil => simp [answers, after, performAll]
  | cons order orders ih =>
    obtain ⟨hanswers, hrest⟩ := ih (h.perform (.append order))
    have hcons : s.answers ((order :: orders).map .append) =
        .flag (s.append order).1 :: (s.append order).2.answers (orders.map .append) := rfl
    have hafter : s.after ((order :: orders).map .append) =
        (s.append order).2.after (orders.map .append) := rfl
    change (s.append order).2.answers (orders.map .append) = _ at hanswers
    change Segment.roomIn ((s.append order).2.after (orders.map .append)).segments = _ at hrest
    rw [hcons, hafter, hanswers, hrest, List.length_cons]
    change Answer.flag (s.append order).1 ::
      (List.replicate (min orders.length (Segment.roomIn (s.append order).2.segments)) _ ++
        List.replicate (orders.length - Segment.roomIn (s.append order).2.segments) _) = _ ∧
      Segment.roomIn (s.append order).2.segments - orders.length = _
    by_cases hroom : 0 < Segment.roomIn s.segments
    · obtain ⟨htrue, hless⟩ := append_of_room h order hroom
      rw [htrue, ← hless, Nat.add_sub_add_right, Nat.add_min_add_right, List.replicate_succ]
      exact ⟨rfl, by omega⟩
    · have hzero : Segment.roomIn s.segments = 0 := by omega
      obtain ⟨hfalse, hsame⟩ := append_of_full h order hzero
      rw [hfalse, hsame, hzero, Nat.min_zero, Nat.min_zero, Nat.sub_zero, Nat.sub_zero,
        List.replicate_succ]
      simp

/-! ## Room and size -/

/-- A store at rest whose segments divide `capacity` bytes without losing a
slot. -/
structure Measured (s : Store) (capacity : Nat) : Prop where
  /-- No write is under way. -/
  atRest : s.AtRest
  /-- The store has that size. -/
  capacity_eq : s.capacity = capacity
  /-- The segments have as many slots as fit. -/
  divide : Segment.Divide s.segments capacity

/-- A new store is divided without losing a slot. -/
theorem IsNew.measured {s : Store} (h : s.IsNew) : s.Measured s.capacity where
  atRest := h.atRest
  capacity_eq := rfl
  divide := by
    cases h with
    | segmented capacity hcount => exact SegmentedBuffer.divide_new hcount
    | _ => exact Segment.divide_singleton

namespace Measured

variable {s : Store} {capacity : Nat}

/-- No call changes where the segments lie. -/
theorem perform (h : s.Measured capacity) (call : Call) :
    (s.perform call).2.Measured capacity where
  atRest := h.atRest.perform call
  capacity_eq := (capacity_perform h.atRest.quiet call).trans h.capacity_eq
  divide := h.divide.of_span (map_span_perform h.atRest.quiet call)

theorem after (h : s.Measured capacity) (calls : List Call) :
    (s.after calls).Measured capacity := by
  induction calls generalizing s with
  | nil => exact h
  | cons call calls ih => exact ih (h.perform call)

/-- What is used and what is free are all the slots. -/
theorem used_add_roomIn (h : s.Measured capacity) :
    s.used + recordSize * Segment.roomIn s.segments = recordSize * (capacity / recordSize) := by
  rw [Store.used_eq, Segment.usedIn_add_roomIn h.atRest.represents, h.divide.slotsIn_eq]

/-- The store says how many records still fit. -/
theorem remainingRecords_eq (h : s.Measured capacity) :
    s.remainingRecords = Segment.roomIn s.segments := by
  have hused := h.used_add_roomIn
  have hmul := Nat.mul_sub recordSize (capacity / recordSize) (Segment.roomIn s.segments)
  have hrecords : s.used =
      recordSize * (capacity / recordSize - Segment.roomIn s.segments) := by omega
  have hle : Segment.roomIn s.segments ≤ capacity / recordSize :=
    Nat.le_of_mul_le_mul_left (Nat.le.intro ((Nat.add_comm ..).trans hused)) recordSize_pos
  rw [remainingRecords, remaining_eq, h.capacity_eq, hrecords, Nat.sub_mul_div]
  omega

end Measured

/-- Nothing is used of a new store. -/
theorem IsNew.used_eq_zero {s : Store} (h : s.IsNew) : s.used = 0 := by
  have hzero {segments : List Segment}
      (hall : ∀ segment ∈ segments, segment.region = .new segment.size) :
      Segment.usedIn segments = 0 := by
    induction segments with
    | nil => rfl
    | cons segment segments ih =>
      have hfirst : segment.region.used = 0 := by
        rw [hall segment List.mem_cons_self]
        rfl
      have hrest := ih fun other hother => hall other (List.mem_cons_of_mem _ hother)
      unfold Segment.usedIn at hrest ⊢
      rw [List.foldr_cons, hfirst, hrest]
  rw [used_eq]
  exact hzero fun _ hsegment => h.region_eq hsegment

/-- A new store has room for as many records as fit into its bytes. -/
theorem IsNew.roomIn_eq {s : Store} (h : s.IsNew) :
    Segment.roomIn s.segments = s.capacity / recordSize := by
  have hslots := h.measured.used_add_roomIn
  rw [h.used_eq_zero, Nat.zero_add] at hslots
  exact Nat.eq_of_mul_eq_mul_left recordSize_pos hslots

/-! ## Stores that never read -/

/-- The store with another number of attempts at a read, if it has one. -/
def retrying (retries : UInt32) : Store → Store
  | optimistic b => optimistic { b with policy := { b.policy with readRetries := retries } }
  | s => s

/-- Writes get at least one attempt. -/
def Attempts : Store → Prop
  | optimistic b => 0 < b.policy.maxAttempts.toNat
  | _ => True

variable {s : Store} {retries : UInt32}

@[simp] theorem segments_retrying : (s.retrying retries).segments = s.segments := by
  cases s <;> rfl

@[simp] theorem used_retrying : (s.retrying retries).used = s.used := by
  cases s <;> rfl

@[simp] theorem capacity_retrying : (s.retrying retries).capacity = s.capacity := by
  cases s <;> rfl

@[simp] theorem remaining_retrying : (s.retrying retries).remaining = s.remaining := by
  cases s <;> rfl

@[simp] theorem remainingRecords_retrying :
    (s.retrying retries).remainingRecords = s.remainingRecords := by
  rw [remainingRecords, remaining_retrying, remainingRecords]

/-- A new store that gives writes an attempt is new in the strict sense once it gives reads
one. -/
theorem isNew_retrying (strategy : Strategy) (capacity : Nat) {count : Nat} {policy : RetryPolicy}
    (hcount : 1 ≤ count) (h : (new strategy capacity count policy).Attempts) :
    ((new strategy capacity count policy).retrying 1).IsNew := by
  cases strategy with
  | exclusive => exact .exclusive capacity
  | optimistic => exact .optimistic capacity (UInt32.le_iff_toNat_le.mpr h) (UInt32.le_refl 1)
  | readWrite => exact .readWrite capacity
  | segmented => exact .segmented capacity hcount

/-- How often a read is tried is nothing to an append. -/
theorem append_retrying (h : s.Attempts) (order : Order) :
    (s.retrying retries).append order =
      ((s.append order).1, (s.append order).2.retrying retries) := by
  cases s with
  | optimistic b =>
    change (OptimisticBuffer.append _ order).map id optimistic =
      ((b.append order).1, (optimistic (b.append order).2).retrying retries)
    rw [OptimisticBuffer.append_eq order h, OptimisticBuffer.append_eq order (by exact h)]
    rfl
  | _ => rfl

/-- How often a read is tried is nothing to what a call does to the store. -/
theorem perform_retrying (h : s.Attempts) (call : Call) :
    ((s.retrying retries).perform call).2 = (s.perform call).2.retrying retries := by
  cases s with
  | optimistic b =>
    cases call with
    | append order => exact congrArg Prod.snd (append_retrying h order)
    | appendAll orders =>
      change optimistic (OptimisticBuffer.appendAll _ orders).2 =
        (optimistic (b.appendAll orders).2).retrying retries
      rw [OptimisticBuffer.appendAll_eq orders h,
        OptimisticBuffer.appendAll_eq orders (by exact h)]
      dsimp only
      split <;> rfl
    | appendRing order =>
      change optimistic (OptimisticBuffer.appendRing _ order).2 =
        (optimistic (b.appendRing order).2).retrying retries
      rw [OptimisticBuffer.appendRing_eq order h,
        OptimisticBuffer.appendRing_eq order (by exact h)]
      dsimp only
      split <;> rfl
    | _ => rfl
  | _ => cases call <;> rfl

/-- No call changes how often a write is tried. -/
theorem attempts_perform (call : Call) : (s.perform call).2.Attempts ↔ s.Attempts := by
  cases s with
  | optimistic b =>
    have hpolicy {b' : OptimisticBuffer} (h : b'.policy = b.policy) :
        (optimistic b').Attempts ↔ (optimistic b).Attempts := by
      simp only [Attempts, h]
    cases call with
    | append order => exact hpolicy (b.policy_append order)
    | appendAll orders => exact hpolicy (b.policy_appendAll orders)
    | appendRing order => exact hpolicy (b.policy_appendRing order)
    | _ => exact Iff.rfl
  | _ => cases call <;> exact Iff.rfl

theorem attempts_after (calls : List Call) : (s.after calls).Attempts ↔ s.Attempts := by
  induction calls generalizing s with
  | nil => exact Iff.rfl
  | cons call calls ih => exact ih.trans (attempts_perform call)

theorem after_retrying (h : s.Attempts) (calls : List Call) :
    (s.retrying retries).after calls = (s.after calls).retrying retries := by
  induction calls generalizing s with
  | nil => rfl
  | cons call calls ih =>
    calc (s.retrying retries).after (call :: calls)
        = ((s.retrying retries).perform call).2.after calls := rfl
      _ = ((s.perform call).2.retrying retries).after calls := by rw [perform_retrying h]
      _ = (s.after (call :: calls)).retrying retries := ih ((attempts_perform call).mpr h)

theorem answers_append_retrying (h : s.Attempts) (orders : List Order) :
    (s.retrying retries).answers (orders.map .append) = s.answers (orders.map .append) := by
  induction orders generalizing s with
  | nil => rfl
  | cons order orders ih =>
    have happend : (s.retrying retries).append order =
        ((s.append order).1, (s.append order).2.retrying retries) := append_retrying h order
    calc (s.retrying retries).answers ((order :: orders).map .append)
        = .flag ((s.retrying retries).append order).1 ::
            ((s.retrying retries).append order).2.answers (orders.map .append) := rfl
      _ = .flag (s.append order).1 ::
            ((s.append order).2.retrying retries).answers (orders.map .append) := by rw [happend]
      _ = .flag (s.append order).1 :: (s.append order).2.answers (orders.map .append) :=
          congrArg (_ :: ·) (ih ((attempts_perform (.append order)).mpr h))

/-- A failed append is nothing to a read. -/
theorem read_append_of_full (hattempts : s.Attempts) (hrest : (s.retrying retries).AtRest)
    (order : Order) (hfull : Segment.roomIn s.segments = 0) (offset : Nat) :
    (s.append order).2.read offset = s.read offset := by
  have hregion {r : Region} (hmem : ∃ start, ⟨start, r⟩ ∈ s.segments) : r.hasRoom = false := by
    obtain ⟨start, hmem⟩ := hmem
    rw [Bool.eq_false_iff]
    intro hroom
    have := Segment.roomIn_pos_iff.mpr ⟨_, hmem, hroom⟩
    omega
  cases s with
  | exclusive r =>
    change (r.push (encode order)).read offset = r.read offset
    rw [Region.push_of_full _ (hregion ⟨0, List.mem_singleton_self _⟩)]
  | optimistic b =>
    obtain ⟨hquiet, -⟩ := hrest
    cases hquiet with
    | optimistic hstamps hpolicy =>
      have hfull : b.region.hasRoom = false := hregion ⟨0, List.mem_singleton_self _⟩
      change (b.append order).2.read offset = b.read offset
      rw [b.append_eq order hattempts, Region.push_of_full _ hfull]
      exact OptimisticBuffer.read_afterWrite_region offset hstamps
  | readWrite r =>
    change (r.push (encode order)).read offset = r.read offset
    rw [Region.push_of_full _ (hregion ⟨0, List.mem_singleton_self _⟩)]
  | segmented b =>
    have hrest : (segmented b).AtRest := hrest
    have hafter : ((segmented b).append order).2.AtRest := hrest.perform (.append order)
    rw [hafter.read_eq, hrest.read_eq, (append_of_full hrest order hfull).2]

/-! ## The room that a store reports -/

/-- A store says truly how much room it has. After every history of calls that are
made one after another, what is used is whole records, what is free is the rest,
and of further appends exactly as many are successful as records are said to fit,
each taking one slot. Every append after these fails, and leaves the usage of every
segment and every read as it is. -/
theorem room_exact (strategy : Strategy) (capacity : Nat) {count : Nat} {policy : RetryPolicy}
    (hcount : 1 ≤ count) (hattempts : 1 ≤ policy.maxAttempts) (calls : List Call) :
    let s := (new strategy capacity count policy).after calls
    recordSize ∣ s.used ∧ s.used ≤ recordSize * (capacity / recordSize) ∧
      s.remaining = capacity - s.used ∧
      s.remainingRecords = capacity / recordSize - s.used / recordSize ∧
      s.status = ⟨s.used, s.remaining, capacity⟩ ∧
      ∀ orders : List Order,
        s.answers (orders.map .append) =
            List.replicate (min orders.length s.remainingRecords) (.flag true) ++
              List.replicate (orders.length - s.remainingRecords) (.flag false) ∧
          (s.after (orders.map .append)).used =
            s.used + recordSize * min orders.length s.remainingRecords ∧
          (s.remainingRecords ≤ orders.length → ∀ order,
            let full := s.after (orders.map .append)
            let next := full.append order
            next.1 = false ∧ next.2.used = full.used ∧
              next.2.segments.map Segment.status = full.segments.map Segment.status ∧
              ∀ offset, next.2.read offset = full.read offset) := by
  intro s
  have hstart : (new strategy capacity count policy).Attempts := by
    cases strategy with
    | optimistic => exact UInt32.le_iff_toNat_le.mp hattempts
    | _ => trivial
  have hnew := isNew_retrying strategy capacity hcount hstart
  have hcapacity : ((new strategy capacity count policy).retrying 1).capacity = capacity := by
    cases strategy <;> rfl
  have hs : s.Attempts := (attempts_after calls).mpr hstart
  have hfilled (orders : List Order) : (s.after (orders.map .append)).Attempts :=
    (attempts_after _).mpr hs
  have hmeasured : (s.retrying 1).Measured capacity := by
    have h := hnew.measured.after calls
    rwa [hcapacity, after_retrying hstart] at h
  have hroom : s.remainingRecords = Segment.roomIn s.segments := by
    have h := hmeasured.remainingRecords_eq
    rwa [remainingRecords_retrying, segments_retrying] at h
  have hused : s.used + recordSize * s.remainingRecords =
      recordSize * (capacity / recordSize) := by
    have h := hmeasured.used_add_roomIn
    rwa [used_retrying, segments_retrying, ← hroom] at h
  have hsize : s.capacity = capacity := capacity_retrying.symm.trans hmeasured.capacity_eq
  have hremaining : s.remaining = capacity - s.used := by rw [remaining_eq, hsize]
  have hpos := recordSize_pos
  have hle : s.remainingRecords ≤ capacity / recordSize :=
    Nat.le_of_mul_le_mul_left (Nat.le.intro ((Nat.add_comm ..).trans hused)) hpos
  have hrecords : s.used = recordSize * (capacity / recordSize - s.remainingRecords) := by
    rw [Nat.mul_sub]
    omega
  have hdiv : s.used / recordSize = capacity / recordSize - s.remainingRecords := by
    rw [hrecords, Nat.mul_div_cancel_left _ hpos]
  refine ⟨⟨_, hrecords⟩, by omega, hremaining, by omega, ?_, fun orders => ?_⟩
  · rw [status, hsize, ← hremaining]
  have hanswers := answers_append hmeasured.atRest orders
  rw [answers_append_retrying hs, after_retrying hs, segments_retrying, segments_retrying,
    ← hroom] at hanswers
  have hused' := (hmeasured.after (orders.map .append)).used_add_roomIn
  rw [after_retrying hs, used_retrying, segments_retrying, hanswers.2] at hused'
  refine ⟨hanswers.1, ?_, fun henough order => ?_⟩
  · have hmin : s.remainingRecords - orders.length + min orders.length s.remainingRecords =
        s.remainingRecords := by omega
    have hmul := Nat.mul_add recordSize (s.remainingRecords - orders.length)
      (min orders.length s.remainingRecords)
    rw [hmin] at hmul
    omega
  · have hrest : ((s.after (orders.map .append)).retrying 1).AtRest := by
      have h := hmeasured.atRest.after (orders.map .append)
      rwa [after_retrying hs] at h
    have hfull : Segment.roomIn (s.after (orders.map .append)).segments = 0 := by omega
    have happend := append_of_full hrest order (by rw [segments_retrying, hfull])
    rw [append_retrying (hfilled orders), segments_retrying, segments_retrying] at happend
    refine ⟨happend.1, ?_, ?_, read_append_of_full (hfilled orders) hrest order hfull⟩
    · rw [used_eq, used_eq, happend.2]
    · rw [happend.2]

/-- Room for one more record in a buffer of three segments that was full before its
first segment was recycled. -/
theorem room_exact_recycled :
    1 ≤ 3 ∧ 1 ≤ ({} : RetryPolicy).maxAttempts ∧
      let s := (new .segmented 384 3 {}).after
        [.appendAll [{}, {}], .appendAll [{}, {}], .appendAll [{}, {}], .appendRing {}]
      s.remainingRecords = 1 ∧
        s.answers ([{}, {}].map .append) = [.flag true, .flag false] := by
  have hroom : ((new .segmented 384 3 {}).after
      [.appendAll [{}, {}], .appendAll [{}, {}], .appendAll [{}, {}],
        .appendRing {}]).remainingRecords = 1 := by decide +kernel
  have hattempts : 1 ≤ ({} : RetryPolicy).maxAttempts := by decide
  refine ⟨by decide, hattempts, hroom, ?_⟩
  have h := ((room_exact .segmented 384 (show 1 ≤ 3 by decide) hattempts
    [.appendAll [{}, {}], .appendAll [{}, {}], .appendAll [{}, {}], .appendRing {}]
    ).2.2.2.2.2 [{}, {}]).1
  rw [h, hroom]
  rfl

end Store

end OrderStore
