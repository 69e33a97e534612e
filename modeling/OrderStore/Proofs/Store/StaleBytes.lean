import OrderStore.Proofs.Optimistic.Alike
import OrderStore.Proofs.Store.Alike

/-!
# Stale bytes are unobservable

Bytes at or above a position are left from writes before a reset or a wrap. No
call answers anything that depends on them: a read ends below the position, and
a write covers what it moves the position past. So two stores that differ in
nothing else answer every history of calls alike, and a reset that zeroes the
bytes cannot be told from one that leaves them. This holds for every policy and
every size, also for those that no valid configuration has.
-/

namespace OrderStore

namespace Store

/-- What a lock-free store keeps beside its position and its bytes: the policy and
both stamps. The others keep nothing of the kind. -/
def lockFree? : Store → Option (RetryPolicy × UInt64 × UInt64)
  | optimistic b => some (b.policy, b.begun, b.finished)
  | _ => none

/-- The usage of each segment in the order of their offsets. -/
def usages (s : Store) : List BufferStatus := s.segments.map Segment.status

/-- The bytes of each segment in the order of their offsets. -/
def arenas (s : Store) : List Arena := s.segments.map (·.region.arena)

/-- Two stores of one configuration with the same positions, counters and stamps, and
with the same bytes below each position. -/
structure EqualBelow (s t : Store) : Prop extends s.Alike t where
  /-- Lock-free calls try equally long and find the same stamps. -/
  lockFree_eq : s.lockFree? = t.lockFree?

theorem lockFree?_of_ne {s : Store} (hstrategy : s.strategy ≠ .optimistic) :
    s.lockFree? = none := by
  cases s with
  | optimistic b => exact absurd rfl hstrategy
  | _ => rfl

/-- Only a lock-free store can have a write under way, or a call without an attempt. -/
theorem quiet_of_ne {s : Store} (hstrategy : s.strategy ≠ .optimistic) : s.Quiet := by
  cases s with
  | exclusive region => exact .exclusive region
  | optimistic b => exact absurd rfl hstrategy
  | readWrite region => exact .readWrite region
  | segmented b => exact .segmented b

theorem segments_reset (s : Store) : s.reset.segments = s.segments.map (·.clear) := by
  cases s with
  | segmented b => exact Array.toList_map
  | _ => rfl

theorem segments_forceReset (s : Store) : s.forceReset.segments = s.segments.map (·.rewind) := by
  cases s with
  | segmented b => exact Array.toList_map
  | _ => rfl

/-- A reset zeroes the bytes of every segment. -/
theorem arenas_reset (s : Store) : s.reset.arenas = s.arenas.map (·.clear) := by
  rw [arenas, arenas, segments_reset, List.map_map, List.map_map]
  rfl

/-- A forced reset leaves the bytes of every segment. -/
theorem arenas_forceReset (s : Store) : s.forceReset.arenas = s.arenas := by
  rw [arenas, arenas, segments_forceReset, List.map_map]
  rfl

namespace EqualBelow

variable {s t : Store}

theorem optimistic {b b' : OptimisticBuffer} (h : b.Alike b') :
    (optimistic b).EqualBelow (optimistic b') where
  strategy_eq := rfl
  capacity_eq := h.region.capacity_eq
  counters_eq := rfl
  segments := .cons ⟨rfl, h.region⟩ .nil
  lockFree_eq := by rw [lockFree?, lockFree?, h.policy_eq, h.begun_eq, h.finished_eq]

/-- Either both stores are lock-free, with buffers that cannot be told apart, or
neither is. -/
theorem cases_strategy (h : s.EqualBelow t) :
    (∃ b b', s = .optimistic b ∧ t = .optimistic b' ∧ b.Alike b') ∨
      s.strategy ≠ .optimistic ∧ t.strategy ≠ .optimistic := by
  by_cases hstrategy : s.strategy = .optimistic
  · have hstrategy' := h.strategy_eq.symm.trans hstrategy
    cases s <;> cases hstrategy
    cases t <;> cases hstrategy'
    next b b' =>
    obtain ⟨hpolicy, hstamps⟩ := Prod.mk.inj (Option.some.inj h.lockFree_eq)
    obtain ⟨hbegun, hfinished⟩ := Prod.mk.inj hstamps
    exact Or.inl ⟨b, b', rfl, rfl, hpolicy, hbegun, hfinished, h.region rfl rfl⟩
  · exact Or.inr ⟨hstrategy, h.strategy_eq ▸ hstrategy⟩

/-- Lock-free buffers that cannot be told apart answer the next call alike, and stay
so. -/
theorem perform_optimistic {b b' : OptimisticBuffer} (h : b.Alike b') (call : Call) :
    ((Store.optimistic b).perform call).1 = ((Store.optimistic b').perform call).1 ∧
      ((Store.optimistic b).perform call).2.EqualBelow
        ((Store.optimistic b').perform call).2 := by
  have hcapacity : (Store.optimistic b).capacity = (Store.optimistic b').capacity :=
    h.region.capacity_eq
  have hused : (Store.optimistic b).used = (Store.optimistic b').used := h.region.used_eq
  constructor
  · apply answer_congr hcapacity hused h.read_eq
    · exact fun order _ => (h.append order).1
    · exact fun orders _ => (h.appendAll orders).1
    · exact fun order _ => (h.appendRing order).1
  · cases call with
    | append order => exact .optimistic (h.append order).2
    | appendAll orders => exact .optimistic (h.appendAll orders).2
    | appendRing order => exact .optimistic (h.appendRing order).2
    | reset => exact .optimistic h.clear
    | forceReset => exact .optimistic h.rewind
    | _ => exact .optimistic h

/-- The next call gets the same answer, and leaves both stores equal below. -/
theorem perform (h : s.EqualBelow t) (call : Call) :
    (s.perform call).1 = (t.perform call).1 ∧
      (s.perform call).2.EqualBelow (t.perform call).2 := by
  rcases h.cases_strategy with ⟨b, b', rfl, rfl, hb⟩ | ⟨hs, ht⟩
  · exact perform_optimistic hb call
  · have hsquiet := quiet_of_ne hs
    have htquiet := quiet_of_ne ht
    rw [← strategy_perform s call] at hs
    rw [← strategy_perform t call] at ht
    refine ⟨h.perform_fst_eq hsquiet htquiet call, h.toAlike.perform hsquiet htquiet call, ?_⟩
    rw [lockFree?_of_ne hs, lockFree?_of_ne ht]

/-- Every history of calls gets the same answers, and leaves both stores equal
below. -/
theorem answers_after (h : s.EqualBelow t) (calls : List Call) :
    s.answers calls = t.answers calls ∧ (s.after calls).EqualBelow (t.after calls) := by
  induction calls generalizing s t with
  | nil => exact ⟨rfl, h⟩
  | cons call calls ih =>
    obtain ⟨hfirst, hnext⟩ := h.perform call
    obtain ⟨hrest, hafter⟩ := ih hnext
    refine ⟨?_, hafter⟩
    calc s.answers (call :: calls)
        = (s.perform call).1 :: (s.perform call).2.answers calls := rfl
      _ = (t.perform call).1 :: (t.perform call).2.answers calls := by rw [hfirst, hrest]
      _ = t.answers (call :: calls) := rfl

/-- Nor can the usage of any segment tell them apart. -/
theorem usages_eq (h : s.EqualBelow t) : s.usages = t.usages := by
  refine Segment.map_eq_of_alike h.segments fun a b hsegment => ?_
  rw [Segment.status, Segment.status, Segment.size, Segment.size, hsegment.region.used_eq,
    hsegment.region.tracker_eq, hsegment.region.capacity_eq]

/-- A store that is zeroed agrees with one that is only rewound. -/
theorem reset_forceReset (h : s.EqualBelow t) : s.reset.EqualBelow t.forceReset where
  strategy_eq := by
    calc s.reset.strategy = s.strategy := s.strategy_perform .reset
      _ = t.strategy := h.strategy_eq
      _ = t.forceReset.strategy := (t.strategy_perform .forceReset).symm
  capacity_eq := by
    have hs : s.reset.capacity = s.capacity := by cases s <;> rfl
    have ht : t.forceReset.capacity = t.capacity := by cases t <;> rfl
    rw [hs, ht, h.capacity_eq]
  counters_eq := by
    have hs : s.reset.counters = s.counters := by cases s <;> rfl
    have ht : t.forceReset.counters = t.counters := by cases t <;> rfl
    rw [hs, ht, h.counters_eq]
  segments := by
    rw [segments_reset, segments_forceReset, List.forall₂_map_left_iff,
      List.forall₂_map_right_iff]
    exact h.segments.imp fun _ _ hsegment => ⟨hsegment.start_eq, hsegment.region.clear_rewind⟩
  lockFree_eq := by
    have hs : s.reset.lockFree? = s.lockFree? := by cases s <;> rfl
    have ht : t.forceReset.lockFree? = t.lockFree? := by cases t <;> rfl
    rw [hs, ht, h.lockFree_eq]

/-- An empty store agrees with itself: its segments have as many bytes as they should. -/
theorem new (strategy : Strategy) (capacity count : Nat) (policy : RetryPolicy) :
    (new strategy capacity count policy).EqualBelow (new strategy capacity count policy) where
  strategy_eq := rfl
  capacity_eq := rfl
  counters_eq := rfl
  segments := by
    rw [List.forall₂_same]
    intro segment hsegment
    refine ⟨rfl, ?_⟩
    rw [region_eq_of_mem_new hsegment]
    exact .of_start rfl rfl (Arena.capacity_new _) (Arena.capacity_new _)
  lockFree_eq := rfl

end EqualBelow

/-- Stale bytes are unobservable. Whatever store is made and whatever calls have
brought it to where it is, emptying it with its bytes zeroed and emptying it with its
bytes left as they are cannot be told apart by any further calls, nor by the usage
of its segments after them. And two stores of one configuration that agree on
positions, counters, stamps and the bytes below each position, whatever the bytes above
are, answer every history of calls alike and agree on all this after it. -/
theorem stale_bytes_unobservable :
    (∀ (strategy : Strategy) (capacity count : Nat) (policy : RetryPolicy)
      (calls further : List Call),
      let s := (new strategy capacity count policy).after calls
      s.reset.answers further = s.forceReset.answers further ∧
        (s.reset.after further).usages = (s.forceReset.after further).usages ∧
        s.reset.arenas = s.arenas.map (·.clear) ∧ s.forceReset.arenas = s.arenas) ∧
    ∀ s t : Store, s.EqualBelow t → ∀ calls : List Call,
      s.answers calls = t.answers calls ∧ (s.after calls).usages = (t.after calls).usages ∧
        (s.after calls).EqualBelow (t.after calls) := by
  constructor
  · intro strategy capacity count policy calls further s
    have hself : s.EqualBelow s :=
      ((EqualBelow.new strategy capacity count policy).answers_after calls).2
    obtain ⟨hanswers, hafter⟩ := hself.reset_forceReset.answers_after further
    exact ⟨hanswers, hafter.usages_eq, s.arenas_reset, s.arenas_forceReset⟩
  · intro s t h calls
    obtain ⟨hanswers, hafter⟩ := h.answers_after calls
    exact ⟨hanswers, hafter.usages_eq, hafter⟩

/-- Two lock-free stores that differ only in the record above their position: one of
them was zeroed in between. -/
theorem stale_bytes_unobservable_second_slot :
    let first : List Call := [.append { id := 1 }, .append { id := 2 }]
    let s := (new .optimistic 128 1 {}).after (first ++ [.reset, .append { id := 3 }])
    let t := (new .optimistic 128 1 {}).after (first ++ [.forceReset, .append { id := 3 }])
    let further : List Call := [.read 0, .read 64, .appendRing { id := 4 }, .read 64]
    s ≠ t ∧ s.EqualBelow t ∧ s.answers further = t.answers further := by
  intro first s t further
  have hdiffer : s ≠ t := by decide +kernel
  have hequal : s.EqualBelow t := by
    have hself := ((EqualBelow.new .optimistic 128 1 {}).answers_after first).2
    exact (hself.reset_forceReset.perform (.append { id := 3 })).2
  exact ⟨hdiffer, hequal, (stale_bytes_unobservable.2 s t hequal further).1⟩

end Store

end OrderStore
