import OrderStore.Proofs.Benchmark.Workload
import Mathlib.Data.Nat.ModEq
import Mathlib.Data.List.Perm.Subperm
import Mathlib.Data.Nat.Prime.Basic
import Mathlib.Tactic.NormNum.Prime

/-!
# Which slots a reader visits

In each round a reader makes as many steps as there are slots, always of the same
stride. The stride is prime, so a round leads to every slot once, unless the number of
slots is a multiple of the stride. Then the reader is back where it was after fewer
steps, and goes round and round a few slots without ever seeing the others.
-/

namespace OrderStore

/-! ## Rounds -/

/-- The slots of a sweep, each by the number of steps that lead to it. -/
theorem sweep_eq (slots steps slot : ℕ) :
    sweep slots steps slot =
      (List.range steps).map fun j => (slot + (j + 1) * readStride) % slots := by
  induction steps generalizing slot with
  | zero => rfl
  | succ steps ih =>
    rw [sweep, ih, List.range_succ_eq_map, List.map_cons, List.map_map]
    congr 1
    refine List.map_congr_left fun j _ => ?_
    rw [Function.comp_apply, Nat.mod_add_mod, Nat.succ_mul (j + 1), Nat.add_assoc,
      Nat.add_comm readStride]

/-- A sweep is continued from where it has led to. -/
theorem sweep_add (slots steps more slot : ℕ) :
    sweep slots (steps + more) slot =
      sweep slots steps slot ++ sweep slots more (slot + steps * readStride) := by
  rw [sweep_eq, sweep_eq, sweep_eq, List.range_add, List.map_append, List.map_map]
  congr 1
  refine List.map_congr_left fun j _ => ?_
  rw [Function.comp_apply, Nat.add_assoc slot, ← Nat.add_mul, Nat.add_assoc steps]

/-- Steps of a stride that has no divisor in common with the number of slots lead to
every slot once. -/
theorem perm_range_of_coprime {slots stride : ℕ} (hcoprime : Nat.Coprime slots stride)
    (hslots : 0 < slots) (slot : ℕ) :
    ((List.range slots).map fun j => (slot + (j + 1) * stride) % slots).Perm
      (List.range slots) := by
  have hdistinct : ((List.range slots).map fun j => (slot + (j + 1) * stride) % slots).Nodup := by
    refine List.Nodup.map_on (fun j hj k hk hsame => ?_) List.nodup_range
    have hsteps : (j + 1) * stride ≡ (k + 1) * stride [MOD slots] :=
      Nat.ModEq.add_left_cancel' slot hsame
    have hcount : j ≡ k [MOD slots] :=
      Nat.ModEq.add_right_cancel' 1 (hsteps.cancel_right_of_coprime hcoprime)
    exact hcount.eq_of_lt_of_lt (List.mem_range.mp hj) (List.mem_range.mp hk)
  refine (hdistinct.subperm fun slot hslot => ?_).perm_of_length_le (by simp)
  obtain ⟨j, -, rfl⟩ := List.mem_map.mp hslot
  exact List.mem_range.mpr (Nat.mod_lt _ hslots)

/-! ## A number of slots that is a multiple of the stride -/

/-- The slots that can be reached from slot `slot` with steps of the stride, if their
number is `rounds` times the stride. -/
def reachable (rounds slot : ℕ) : List ℕ :=
  (List.range rounds).map fun k => slot % readStride + readStride * k

/-- So many steps lead to all of them once. -/
theorem sweep_perm_reachable {rounds : ℕ} (hrounds : 0 < rounds) (slot : ℕ) :
    (sweep (readStride * rounds) rounds slot).Perm (reachable rounds slot) := by
  have hslot (j : ℕ) : (slot + (j + 1) * readStride) % (readStride * rounds) =
      slot % readStride + readStride * ((slot / readStride + (j + 1) * 1) % rounds) := by
    rw [Nat.mod_mul, Nat.add_mul_mod_self_right, Nat.add_mul_div_right _ _ (by decide),
      Nat.mul_one]
  have hblock : sweep (readStride * rounds) rounds slot =
      ((List.range rounds).map fun j => (slot / readStride + (j + 1) * 1) % rounds).map
        fun k => slot % readStride + readStride * k := by
    rw [sweep_eq, List.map_map]
    exact List.map_congr_left fun j _ => hslot j
  rw [hblock]
  exact (perm_range_of_coprime (Nat.coprime_one_right rounds) hrounds _).map _

/-- Afterwards the reader is where it was, and goes round them again. -/
theorem sweep_perm_replicate {rounds : ℕ} (hrounds : 0 < rounds) (times slot : ℕ) :
    (sweep (readStride * rounds) (times * rounds) slot).Perm
      (List.replicate times (reachable rounds slot)).flatten := by
  induction times with
  | zero => rw [Nat.zero_mul]; exact .nil
  | succ times ih =>
    have hback : sweep (readStride * rounds) (times * rounds) (slot + rounds * readStride) =
        sweep (readStride * rounds) (times * rounds) slot := by
      rw [sweep_eq, sweep_eq]
      refine List.map_congr_left fun j _ => ?_
      rw [Nat.add_right_comm, Nat.mul_comm rounds, Nat.add_mod_right]
    rw [Nat.succ_mul, Nat.add_comm, sweep_add, hback, List.replicate_succ, List.flatten_cons]
    exact (sweep_perm_reachable hrounds slot).append ih

/-! ## One round of a reader -/

theorem readerSlots_eq {slots : ℕ} (hslots : 1 ≤ slots) (slot : ℕ) :
    readerSlots slots slot = sweep slots slots slot := by
  rw [readerSlots, Nat.max_eq_left hslots]

/-- One round leads to every slot once if their number is no multiple of the stride. -/
theorem readerSlots_perm_range {slots : ℕ} (hslots : 1 ≤ slots) (hstride : ¬ readStride ∣ slots)
    (slot : ℕ) : (readerSlots slots slot).Perm (List.range slots) := by
  have hprime : Nat.Prime readStride := by norm_num [readStride]
  rw [readerSlots_eq hslots, sweep_eq]
  exact perm_range_of_coprime ((hprime.coprime_iff_not_dvd.mpr hstride).symm) hslots slot

/-- Otherwise it leads to every slot that can be reached as often as the stride is
long. -/
theorem readerSlots_perm_replicate {slots : ℕ} (hslots : 1 ≤ slots) (hstride : readStride ∣ slots)
    (slot : ℕ) : (readerSlots slots slot).Perm
      (List.replicate readStride (reachable (slots / readStride) slot)).flatten := by
  obtain ⟨rounds, rfl⟩ := hstride
  have hrounds : 0 < rounds := Nat.pos_of_mul_pos_left hslots
  rw [readerSlots_eq hslots, Nat.mul_div_cancel_left rounds (by decide)]
  exact sweep_perm_replicate hrounds readStride slot

/-- What a reader finds in one round of a store that nobody writes to depends on the
number of slots, not on where it starts. If that number is no multiple of the stride,
the round leads to every slot exactly once, so that the reader finds as many orders as
can be read, misses the other slots, and notices every order that is not as it was
written. If it is a multiple of the stride, the round leads only to the slots that are
apart from the start by a multiple of the stride, and to each of them as often as the
stride is long. -/
theorem readerSlots_cover {σ : Type} {slots : ℕ} (hslots : 1 ≤ slots) (slot : ℕ) :
    (¬ readStride ∣ slots →
      (readerSlots slots slot).Perm (List.range slots) ∧
      ∀ (now : StateM σ ℕ) (s : Store),
        Leaves (runReader now (readerSlots slots slot)) s fun result s' =>
          s' = s ∧ result.1.succeeded = (List.range slots).countP s.isFoundIn ∧
            result.1.succeeded + result.1.failed = slots ∧
            result.2 = (List.range slots).countP s.isCorruptIn) ∧
    (readStride ∣ slots →
      (readerSlots slots slot).Perm
        (List.replicate readStride (reachable (slots / readStride) slot)).flatten) := by
  refine ⟨fun hstride => ?_, fun hstride => readerSlots_perm_replicate hslots hstride slot⟩
  have hperm := readerSlots_perm_range hslots hstride slot
  refine ⟨hperm, fun now s => (leaves_runReader now _ s).imp ?_⟩
  rintro ⟨_, _⟩ s' ⟨hs', rfl, outcomes, rfl, houtcomes⟩
  obtain ⟨hsucceeded, hfailed⟩ := Recorder.counts_ofOutcomes outcomes
  have hfound : outcomes.countP (·.1) = (List.range slots).countP s.isFoundIn := by
    rw [← hperm.countP_eq]
    have h := congrArg (List.countP id) houtcomes
    rwa [List.countP_map, List.countP_map] at h
  have hlength : outcomes.length = slots := by
    rw [← List.length_map (f := Prod.fst), houtcomes, List.length_map, hperm.length_eq,
      List.length_range]
  have htotal : outcomes.countP (·.1) + outcomes.countP (!·.1) = outcomes.length := by
    simpa using (List.length_eq_countP_add_countP (·.1) (l := outcomes)).symm
  refine ⟨hs', hsucceeded.trans hfound, ?_, hperm.countP_eq _⟩
  dsimp only
  rw [hsucceeded, hfailed, htotal, hlength]

/-- A store of the default size, from a slot that it does not have. -/
theorem readerSlots_cover_default :
    1 ≤ ({} : StoreConfig).recordCapacity ∧ ¬ readStride ∣ ({} : StoreConfig).recordCapacity ∧
      (readerSlots ({} : StoreConfig).recordCapacity 20000).Perm (List.range 16384) := by
  have hslots : ({} : StoreConfig).recordCapacity = 16384 := by decide +kernel
  rw [hslots]
  have hstride : ¬ readStride ∣ 16384 := by decide
  exact ⟨by decide, hstride, ((readerSlots_cover (σ := Unit) (by decide) 20000).1 hstride).1⟩

/-- A valid configuration with as many slots as the stride is long: the first reader
reads the first slot over and over, and no other. -/
theorem readerSlots_not_cover :
    let config : StoreConfig := { capacity := 506816 }
    config.validate = .ok () ∧ config.recordCapacity = 7919 ∧
      (∀ slot ∈ readerSlots config.recordCapacity 0, slot = 0) ∧
      ¬ (readerSlots config.recordCapacity 0).Perm (List.range config.recordCapacity) := by
  intro config
  have hslots : config.recordCapacity = 7919 := by decide +kernel
  have hfirst : ∀ slot ∈ readerSlots 7919 0, slot = 0 := by
    intro slot hslot
    have hmem := (readerSlots_perm_replicate (by decide) (by decide) 0).mem_iff.mp hslot
    obtain ⟨round, hround, hmem⟩ := List.mem_flatten.mp hmem
    rw [List.eq_of_mem_replicate hround] at hmem
    exact List.mem_singleton.mp hmem
  rw [hslots]
  refine ⟨by decide +kernel, rfl, hfirst, fun hperm => ?_⟩
  have hsecond : 1 ∈ readerSlots 7919 0 := hperm.mem_iff.mpr (List.mem_range.mpr (by decide))
  exact Nat.one_ne_zero (hfirst 1 hsecond)

end OrderStore
