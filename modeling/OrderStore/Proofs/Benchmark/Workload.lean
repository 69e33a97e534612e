import OrderStore.Benchmark.Program
import OrderStore.Proofs.Benchmark.Synthetic
import OrderStore.Proofs.Latency.Merging
import OrderStore.Proofs.Store.RingWrite

/-!
# What the workload does to a store

The workload calls nothing but the store and the clock. Whatever the clock shows, its
writers are one history of calls, whose answers are what their recorders count; its
readers leave the store as it is.
-/

namespace OrderStore

variable {σ α β : Type}

/-! ## Computations with a clock -/

/-- Whatever the clock has shown before, the result of a computation has a property. -/
def Returns (x : StateM σ α) (property : α → Prop) : Prop := ∀ time, property (x.run time).1

/-- Whatever the clock has shown before, a computation that starts with store `s` comes
to a result and a store that have a property. -/
def Leaves (x : StateT Store (StateM σ) α) (s : Store) (property : α → Store → Prop) : Prop :=
  Returns (x.run s) fun result => property result.1 result.2

theorem Returns.pure {value : α} {property : α → Prop} (h : property value) :
    Returns (pure value : StateM σ α) property :=
  fun _ => h

theorem Returns.bind {x : StateM σ α} {f : α → StateM σ β} {property : α → Prop}
    {goal : β → Prop} (hx : Returns x property)
    (hf : ∀ value, property value → Returns (f value) goal) : Returns (x >>= f) goal :=
  fun time => hf (x.run time).1 (hx time) (x.run time).2

namespace Leaves

variable {s : Store} {property : α → Store → Prop} {goal : β → Store → Prop}

theorem pure {value : α} (h : property value s) :
    Leaves (pure value : StateT Store (StateM σ) α) s property :=
  fun _ => h

theorem bind {x : StateT Store (StateM σ) α} {f : α → StateT Store (StateM σ) β}
    (hx : Leaves x s property)
    (hf : ∀ value s', property value s' → Leaves (f value) s' goal) : Leaves (x >>= f) s goal :=
  Returns.bind hx fun result hresult => hf result.1 result.2 hresult

theorem imp {x : StateT Store (StateM σ) α} {weaker : α → Store → Prop}
    (hx : Leaves x s property) (h : ∀ value s', property value s' → weaker value s') :
    Leaves x s weaker :=
  fun time => h _ _ (hx time)

theorem map {x : StateT Store (StateM σ) α} {f : α → β} (hx : Leaves x s property)
    (hf : ∀ value s', property value s' → goal (f value) s') : Leaves (f <$> x) s goal :=
  fun time => hf _ _ (hx time)

end Leaves

/-- A timed call is that call. -/
theorem leaves_timed (now : StateM σ Nat) (call : Store → α × Store) (s : Store) :
    Leaves (timed now call) s fun result s' => result.1 = (call s).1 ∧ s' = (call s).2 :=
  fun _ => ⟨rfl, rfl⟩

/-! ## Writers -/

/-- The answer to a write, as an outcome counts it. -/
def answerOf (outcome : Bool × Nat) : Answer := .flag outcome.1

/-- What recorder and store look like after some calls, each of which wrote a record or
failed to. -/
def Recorded (r : Recorder) (s : Store) (calls : List Call) (r' : Recorder) (s' : Store) : Prop :=
  s' = s.after calls ∧
    ∃ outcomes, r' = r.recordAll outcomes ∧ outcomes.map answerOf = s.answers calls

theorem leaves_writeOne (now : StateM σ Nat) (ring : Bool) (r : Recorder) (id : UInt32)
    (s : Store) :
    Leaves (writeOne now ring r id) s (Recorded r s [syntheticWrite ring id]) := by
  refine (leaves_timed now _ s).bind ?_
  rintro ⟨written, nanos⟩ s' ⟨hwritten, hs'⟩
  have hcall : s.perform (syntheticWrite ring id) = (.flag written, s') := by
    cases ring <;> exact Prod.ext (congrArg Answer.flag hwritten.symm) hs'.symm
  refine Leaves.pure ⟨?_, [(written, nanos)], rfl, ?_⟩
  · change s' = (s.perform (syntheticWrite ring id)).2
    rw [hcall]
  · change [Answer.flag written] = [(s.perform (syntheticWrite ring id)).1]
    rw [hcall]

theorem Recorded.trans {r r' r'' : Recorder} {s s' s'' : Store} {calls more : List Call}
    (h : Recorded r s calls r' s') (h' : Recorded r' s' more r'' s'') :
    Recorded r s (calls ++ more) r'' s'' := by
  obtain ⟨rfl, outcomes, rfl, houtcomes⟩ := h
  obtain ⟨rfl, others, rfl, hothers⟩ := h'
  refine ⟨(s.after_append calls more).symm, outcomes ++ others, ?_, ?_⟩
  · rw [Recorder.recordAll_append]
  · rw [List.map_append, houtcomes, hothers, Store.answers_of_append]

theorem leaves_runWriter (now : StateM σ Nat) (ring : Bool) (ids : List UInt32) (s : Store) :
    Leaves (runWriter now ring ids) s (Recorded {} s (ids.map (syntheticWrite ring))) := by
  have hfrom (r : Recorder) : Leaves (ids.foldlM (writeOne now ring) r) s
      (Recorded r s (ids.map (syntheticWrite ring))) := by
    induction ids generalizing r s with
    | nil => exact Leaves.pure ⟨rfl, [], rfl, rfl⟩
    | cons id ids ih =>
      rw [List.foldlM_cons]
      refine (leaves_writeOne now ring r id s).bind fun r' s' hfirst => ?_
      exact (ih s' r').imp fun _ _ hrest => hfirst.trans hrest
  exact hfrom {}

/-- The outcomes of several workers, each recorded by itself. -/
def recorders (parts : List (List (Bool × Nat))) : List (Option Recorder) :=
  parts.map fun outcomes => some (.ofOutcomes outcomes)

/-- Writers that run one after another make one history of calls. -/
theorem leaves_writers (now : StateM σ Nat) (ring : Bool) (shares : List (List UInt32))
    (s : Store) :
    Leaves ((shares.map fun ids => some <$> runWriter now ring ids).mapM id) s
      fun results s' => s' = s.after (shares.flatten.map (syntheticWrite ring)) ∧
        ∃ parts, results = recorders parts ∧
          parts.flatten.map answerOf = s.answers (shares.flatten.map (syntheticWrite ring)) := by
  induction shares generalizing s with
  | nil => exact Leaves.pure ⟨rfl, [], rfl, rfl⟩
  | cons ids shares ih =>
    have hfirst : Leaves (some <$> runWriter now ring ids) s fun result s' =>
        s' = s.after (ids.map (syntheticWrite ring)) ∧
          ∃ part, result = some (.ofOutcomes part) ∧
            part.map answerOf = s.answers (ids.map (syntheticWrite ring)) := by
      refine (leaves_runWriter now ring ids s).map ?_
      rintro _ _ ⟨rfl, part, rfl, hpart⟩
      exact ⟨rfl, part, rfl, hpart⟩
    rw [List.map_cons, List.mapM_cons]
    refine hfirst.bind ?_
    rintro _ _ ⟨rfl, part, rfl, hpart⟩
    refine (ih _).bind ?_
    rintro _ _ ⟨rfl, parts, rfl, hparts⟩
    refine Leaves.pure ⟨?_, part :: parts, rfl, ?_⟩
    · rw [List.flatten_cons, List.map_append, Store.after_append]
    · rw [List.flatten_cons, List.flatten_cons, List.map_append, List.map_append, hpart, hparts,
        Store.answers_of_append]

/-- Recorders that started empty can be merged, one after the other. -/
theorem mergeWriters_recorders (outcomes : List (Bool × Nat)) (parts : List (List (Bool × Nat))) :
    mergeWriters (.ofOutcomes outcomes) (recorders parts) =
      .ok (.ofOutcomes (outcomes ++ parts.flatten)) := by
  induction parts generalizing outcomes with
  | nil =>
    rw [List.flatten_nil, List.append_nil]
    rfl
  | cons part parts ih =>
    change mergeWriters _ (some (.ofOutcomes part) :: recorders parts) = _
    rw [mergeWriters, Recorder.merge?_ofOutcomes, List.flatten_cons, ← List.append_assoc, ← ih]

/-! ## Readers -/

namespace Store

/-- Whether a reader finds an order in a slot. -/
def isFoundIn (s : Store) (slot : Nat) : Bool := (s.read (slot * recordSize)).isSome

/-- Whether a reader finds an order in a slot that is not as it was written. -/
def isCorruptIn (s : Store) (slot : Nat) : Bool :=
  (s.read (slot * recordSize)).any Order.isCorrupt

theorem isCorruptIn_of_clean {s : Store}
    (hclean : ∀ offset order, s.read offset = some order → order.isCorrupt = false) (slot : Nat) :
    ¬ s.isCorruptIn slot := by
  unfold isCorruptIn
  cases hread : s.read (slot * recordSize) with
  | none => exact Bool.false_ne_true
  | some order => exact ne_true_of_eq_false (hclean _ _ hread)

end Store

/-- A read leaves the store as it is and tells whether there is an order in the slot, and
whether it is as it was written. -/
theorem leaves_readOne (now : StateM σ Nat) (r : Recorder) (corrupt slot : Nat) (s : Store) :
    Leaves (readOne now (r, corrupt) slot) s fun result s' =>
      s' = s ∧ result.2 = corrupt + [slot].countP s.isCorruptIn ∧
        ∃ nanos, result.1 = r.record (s.isFoundIn slot) nanos := by
  refine (leaves_timed now _ s).bind ?_
  rintro ⟨order, nanos⟩ s' ⟨horder, hs'⟩
  obtain rfl : s = s' := hs'.symm
  obtain rfl : order = s.read (slot * recordSize) := horder
  refine Leaves.pure ⟨rfl, ?_, nanos, rfl⟩
  rw [List.countP_singleton, Store.isCorruptIn]
  split <;> rfl

/-- A reader leaves the store as it is, and records for each slot whether there is an
order in it. It counts the orders that are not as they were written. -/
theorem leaves_runReader (now : StateM σ Nat) (slots : List Nat) (s : Store) :
    Leaves (runReader now slots) s fun result s' =>
      s' = s ∧ result.2 = slots.countP s.isCorruptIn ∧
        ∃ outcomes, result.1 = .ofOutcomes outcomes ∧
          outcomes.map Prod.fst = slots.map s.isFoundIn := by
  have hfrom (r : Recorder) (corrupt : Nat) :
      Leaves (slots.foldlM (readOne now) (r, corrupt)) s fun result s' =>
        s' = s ∧ result.2 = corrupt + slots.countP s.isCorruptIn ∧
          ∃ outcomes, result.1 = r.recordAll outcomes ∧
            outcomes.map Prod.fst = slots.map s.isFoundIn := by
    induction slots generalizing r corrupt with
    | nil => exact Leaves.pure ⟨rfl, rfl, [], rfl, rfl⟩
    | cons slot slots ih =>
      rw [List.foldlM_cons]
      refine (leaves_readOne now r corrupt slot s).bind ?_
      rintro ⟨_, _⟩ s' ⟨hs', rfl, nanos, rfl⟩
      obtain rfl : s = s' := hs'.symm
      refine (ih (r.record (s.isFoundIn slot) nanos) _).imp ?_
      rintro ⟨_, _⟩ _ ⟨rfl, rfl, outcomes, rfl, houtcomes⟩
      refine ⟨rfl, ?_, (Store.isFoundIn _ slot, nanos) :: outcomes, rfl, ?_⟩
      · rw [Nat.add_assoc, ← List.countP_append, List.singleton_append]
      · rw [List.map_cons, List.map_cons, houtcomes]
  refine (hfrom {} 0).imp fun result s' ⟨hs', hcorrupt, houtcomes⟩ => ?_
  exact ⟨hs', hcorrupt.trans (Nat.zero_add _), houtcomes⟩

/-- Readers that run one after another leave the store as it is, and find nothing
corrupt if there is nothing. -/
theorem leaves_readers (now : StateM σ Nat) (sweeps : List (List Nat)) {s : Store}
    (hclean : ∀ offset order, s.read offset = some order → order.isCorrupt = false) :
    Leaves ((sweeps.map fun slots => runReader now slots).mapM id) s fun results s' =>
      s' = s ∧ results.foldr (fun (_, corrupt) total => corrupt + total) 0 = 0 ∧
        ∃ parts, (results.map fun (recorder, _) => some recorder) = recorders parts := by
  induction sweeps with
  | nil => exact Leaves.pure ⟨rfl, rfl, [], rfl⟩
  | cons slots sweeps ih =>
    rw [List.map_cons, List.mapM_cons]
    refine (leaves_runReader now slots s).bind ?_
    rintro ⟨_, _⟩ s' ⟨hs', rfl, part, rfl, -⟩
    obtain rfl : s = s' := hs'.symm
    have hnone : slots.countP s.isCorruptIn = 0 :=
      List.countP_eq_zero.mpr fun slot _ => Store.isCorruptIn_of_clean hclean slot
    refine ih.bind ?_
    rintro results s' ⟨hs', hcorrupt, parts, hparts⟩
    refine Leaves.pure ⟨hs', ?_, part :: parts, ?_⟩
    · rw [List.foldr_cons, hcorrupt, hnone]
    · rw [List.map_cons, hparts]
      rfl

/-! ## The whole workload -/

/-- The numbers of the orders that are written, writer by writer. -/
def Options.orderIds (o : Options) : List UInt32 :=
  ((List.range o.writers.toNat).map (writerIds o.records)).flatten

theorem length_orderIds (o : Options) :
    o.orderIds.length = o.writers.toNat * o.records.toNat := by
  rw [Options.orderIds, List.length_flatten, List.map_map]
  have hshare : List.length ∘ writerIds o.records = fun _ => o.records.toNat := by
    funext writer
    simp [writerIds]
  rw [hshare, List.map_const', List.sum_replicate_nat, List.length_range]

/-- The workload on a new store comes to an end: the writers' recorders count the
answers of one history of calls, and no reader finds anything corrupt. -/
theorem leaves_runWorkload (now : StateM σ Nat) (o : Options) (slots : Nat) {s : Store}
    (hnew : s.IsNew) :
    Leaves (runWorkload now o slots) s fun result _ => ∃ writes reads,
      result = .ok (.ofOutcomes writes, .ofOutcomes reads, 0) ∧
        writes.map answerOf = s.answers (o.orderIds.map (syntheticWrite o.ring)) := by
  let shares := (List.range o.writers.toNat).map (writerIds o.records)
  let sweeps := (List.range o.readers.toNat).map (readerSlots slots)
  have hwriters := leaves_writers now o.ring shares s
  have hclean (offset : Nat) (order : Order)
      (hread : (s.after (o.orderIds.map (syntheticWrite o.ring))).read offset = some order) :
      order.isCorrupt = false := Store.not_isCorrupt_of_read hnew hread
  have hreaders := leaves_readers now sweeps hclean
  rw [List.map_map] at hwriters hreaders
  have hjoin : Leaves (joinWriters ((List.range o.writers.toNat).map fun writer =>
      some <$> runWriter now o.ring (writerIds o.records writer)) (pure ())) s
      fun result s' => s' = s.after (o.orderIds.map (syntheticWrite o.ring)) ∧
        ∃ writes, result = .ok (.ofOutcomes writes) ∧
          writes.map answerOf = s.answers (o.orderIds.map (syntheticWrite o.ring)) := by
    refine hwriters.bind ?_
    rintro _ _ ⟨rfl, parts, rfl, hparts⟩
    exact Leaves.pure ⟨rfl, parts.flatten, mergeWriters_recorders [] parts, hparts⟩
  refine hjoin.bind ?_
  rintro _ _ ⟨rfl, writes, rfl, hwrites⟩
  refine hreaders.bind ?_
  rintro results _ ⟨rfl, hcorrupt, parts, hparts⟩
  have hreads : mergeWriters {} (recorders parts) = .ok (.ofOutcomes parts.flatten) :=
    mergeWriters_recorders [] parts
  dsimp only
  rw [hparts, hreads]
  refine Leaves.pure ⟨writes, parts.flatten, ?_, hwrites⟩
  exact congrArg (fun corrupt => Except.ok (_, _, corrupt)) hcorrupt

end OrderStore
