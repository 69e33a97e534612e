import OrderStore.Latency.Recorder
import OrderStore.Proofs.Latency.Bins
import Mathlib.Data.List.Perm.Basic

/-!
# Merged recorders

Every worker records its own operations, and the recorders are merged afterwards. A
recorder depends on the operations that went into it and on nothing else: not on who
recorded them, in what order, or which recorders were merged with which. For this the
bins and the extremes are each shown to be a sum that may be taken in any order; an
empty recorder adds nothing to it.
-/

namespace OrderStore

/-! ## Bins -/

section Bins

variable (lowest count : Nat) (bins others : List Bin)

/-- It does not matter which of two samples is counted first. -/
theorem addToBins_comm (lowest' count' : Nat) :
    addToBins lowest count (addToBins lowest' count' bins) =
      addToBins lowest' count' (addToBins lowest count bins) := by
  -- each of the two comes before the first bin, into it, or behind it
  induction bins with
  | nil => grind [addToBins]
  | cons bin bins ih => grind [addToBins]

/-- Samples that fall into one bin are counted together. -/
theorem addToBins_addToBins (more : Nat) :
    addToBins lowest more (addToBins lowest count bins) = addToBins lowest (count + more) bins := by
  induction bins with
  | nil => grind [addToBins]
  | cons bin bins ih => grind [addToBins]

/-- A sample may be counted before other bins are added. -/
theorem mergeBins_addToBins_left :
    mergeBins (addToBins lowest count bins) others =
      addToBins lowest count (mergeBins bins others) := by
  induction others generalizing bins with
  | nil => rfl
  | cons other others ih =>
    calc mergeBins (addToBins lowest count bins) (other :: others)
        = mergeBins (addToBins other.lowest other.count (addToBins lowest count bins)) others := rfl
      _ = mergeBins (addToBins lowest count (addToBins other.lowest other.count bins)) others := by
          rw [addToBins_comm]
      _ = addToBins lowest count (mergeBins bins (other :: others)) := ih _

/-- A sample may be counted in the bins that are added. -/
theorem mergeBins_addToBins_right :
    mergeBins bins (addToBins lowest count others) =
      addToBins lowest count (mergeBins bins others) := by
  induction others generalizing bins with
  | nil => rfl
  | cons other others ih =>
    rw [addToBins]
    split
    · exact mergeBins_addToBins_left lowest count bins (other :: others)
    · split
      · next heq =>
        calc mergeBins bins (⟨lowest, other.count + count⟩ :: others)
            = mergeBins (addToBins lowest (other.count + count) bins) others := rfl
          _ = mergeBins (addToBins lowest count (addToBins other.lowest other.count bins)) others := by
              rw [heq, addToBins_addToBins]
          _ = addToBins lowest count (mergeBins bins (other :: others)) :=
              mergeBins_addToBins_left ..
      · exact ih (addToBins other.lowest other.count bins)

/-- Every sample is counted in some bin. -/
theorem count_addToBins :
    (addToBins lowest count bins).foldr (fun bin total => bin.count + total) 0 =
      bins.foldr (fun bin total => bin.count + total) 0 + count := by
  induction bins with
  | nil => exact Nat.add_comm ..
  | cons bin bins ih =>
    rw [addToBins]
    split
    · simp only [List.foldr_cons]
      omega
    · split
      · simp only [List.foldr_cons]
        omega
      · simp only [List.foldr_cons, ih]
        omega

end Bins

/-! ## Extremes -/

theorem Extremes.join_none (extremes : Option Extremes) : join extremes none = extremes := by
  cases extremes <;> rfl

theorem Extremes.join_assoc (a b c : Option Extremes) :
    join (join a b) c = join a (join b c) := by
  cases a with
  | none => rfl
  | some a =>
    cases b with
    | none => rfl
    | some b =>
      cases c with
      | none => rfl
      | some c => simp only [join, Nat.min_assoc, Nat.max_assoc]

theorem Extremes.join_comm (a b : Option Extremes) : join a b = join b a := by
  cases a with
  | none => rw [join_none, join]
  | some a =>
    cases b with
    | none => rfl
    | some b => simp only [join, Nat.min_comm, Nat.max_comm]

/-! ## Histograms -/

theorem countedAs_le (sample : Nat) : countedAs sample ≤ maxBinnedNanos := by
  have hclamped : maxTrackableNanos ≤ maxBinnedNanos := by decide
  have hone : 1 ≤ maxBinnedNanos := by decide
  unfold countedAs
  split <;> omega

namespace Histogram

variable (h other : Histogram)

theorem count_record (sample : Nat) : (h.record sample).count = h.count + 1 :=
  count_addToBins ..

/-- It does not matter which of two values is counted first. -/
theorem add_add_comm (a b count count' : Nat) :
    (h.add a count).add b count' = (h.add b count').add a count := by
  simp only [add]
  rw [addToBins_comm, Extremes.join_assoc, Extremes.join_assoc, Extremes.join_comm (some ⟨a, a⟩)]

/-- An empty histogram of the same precision adds nothing. -/
theorem merge_new : h.merge { digits := h.digits } = h := by
  rw [merge, if_pos rfl]
  change { h with extremes := Extremes.join h.extremes none } = h
  rw [Extremes.join_none]

/-- A value that the other histogram counted might as well have been counted after the
merge. -/
theorem merge_add (hdigits : h.digits = other.digits) (value count : Nat) :
    h.merge (other.add value count) = (h.merge other).add value count := by
  have hsame : h.digits = (other.add value count).digits := hdigits
  rw [merge, merge, if_pos hdigits, if_pos hsame]
  simp only [add]
  rw [mergeBins_addToBins_right, Extremes.join_assoc, hdigits]

/-- No histogram has a sample above what the bins can hold. -/
theorem max_record_le (hmax : h.max ≤ maxBinnedNanos) (sample : Nat) :
    (h.record sample).max ≤ maxBinnedNanos := by
  have hsample : highestEquivalent h.digits (countedAs sample) ≤ maxBinnedNanos :=
    highestEquivalent_le h.digits (countedAs_le sample)
  cases hextremes : h.extremes with
  | none =>
    simp only [max, record, add, hextremes, Extremes.join]
    exact hsample
  | some extremes =>
    simp only [max, hextremes] at hmax
    simp only [max, record, add, hextremes, Extremes.join]
    rcases Nat.le_total extremes.largest (countedAs sample) with hle | hge
    · rwa [Nat.max_eq_right hle]
    · rwa [Nat.max_eq_left hge]

end Histogram

/-! ## Recorders -/

namespace Recorder

/-- The recorder with several more operations. -/
def recordAll (r : Recorder) (outcomes : List (Bool × Nat)) : Recorder :=
  outcomes.foldl (fun r outcome => r.record outcome.1 outcome.2) r

/-- A recorder that recorded exactly these operations. -/
def ofOutcomes (outcomes : List (Bool × Nat)) : Recorder := recordAll {} outcomes

theorem recordAll_append (r : Recorder) (outcomes more : List (Bool × Nat)) :
    r.recordAll (outcomes ++ more) = (r.recordAll outcomes).recordAll more :=
  List.foldl_append

/-- It does not matter which of two operations is recorded first. -/
theorem record_record (r : Recorder) (a b : Bool × Nat) :
    (r.record a.1 a.2).record b.1 b.2 = (r.record b.1 b.2).record a.1 a.2 := by
  simp only [record, Histogram.record, Histogram.add_add_comm r.latency (countedAs a.2)]
  grind

/-- The order of the operations does not matter. -/
theorem ofOutcomes_perm {outcomes outcomes' : List (Bool × Nat)} (h : outcomes.Perm outcomes') :
    ofOutcomes outcomes = ofOutcomes outcomes' :=
  h.foldl_eq' (fun a _ b _ r => record_record r a b) {}

/-- A recorder with the default precision whose samples all have a bin. -/
structure Regular (r : Recorder) : Prop where
  /-- Three digits are kept. -/
  digits_eq : r.latency.digits = 3
  /-- The largest sample has a bin. -/
  max_le : r.latency.max ≤ maxBinnedNanos
  /-- Every operation has a sample. -/
  total_eq : r.total = r.latency.count

theorem Regular.record {r : Recorder} (h : r.Regular) (ok : Bool) (nanos : Nat) :
    (r.record ok nanos).Regular where
  digits_eq := h.digits_eq
  max_le := r.latency.max_record_le h.max_le nanos
  total_eq := by
    have htotal : (r.record ok nanos).total = r.total + 1 := by
      cases ok <;> simp only [total, Recorder.record] <;> grind
    rw [htotal, h.total_eq]
    exact (r.latency.count_record nanos).symm

theorem Regular.recordAll {r : Recorder} (h : r.Regular) (outcomes : List (Bool × Nat)) :
    (r.recordAll outcomes).Regular := by
  induction outcomes generalizing r with
  | nil => exact h
  | cons outcome outcomes ih => exact ih (h.record outcome.1 outcome.2)

theorem regular_ofOutcomes (outcomes : List (Bool × Nat)) : (ofOutcomes outcomes).Regular :=
  Regular.recordAll ⟨rfl, Nat.zero_le _, rfl⟩ outcomes

/-- An empty recorder adds nothing. -/
theorem merge_empty {r : Recorder} (h : r.Regular) : r.merge {} = r := by
  change { r with latency := r.latency.merge .empty } = r
  have hempty : Histogram.empty = { digits := r.latency.digits } := by rw [h.digits_eq, Histogram.empty]
  rw [hempty, Histogram.merge_new]

/-- Operations that the other recorder recorded might as well have been recorded after
the merge. -/
theorem merge_recordAll {r other : Recorder} (hdigits : r.latency.digits = other.latency.digits)
    (outcomes : List (Bool × Nat)) :
    r.merge (other.recordAll outcomes) = (r.merge other).recordAll outcomes := by
  induction outcomes generalizing other with
  | nil => rfl
  | cons outcome outcomes ih =>
    have hfirst : r.merge (other.record outcome.1 outcome.2) =
        (r.merge other).record outcome.1 outcome.2 := by
      simp only [merge, record, Histogram.record, Histogram.merge_add _ _ hdigits]
      grind
    calc r.merge (other.recordAll (outcome :: outcomes))
        = (r.merge (other.record outcome.1 outcome.2)).recordAll outcomes := ih hdigits
      _ = (r.merge other).recordAll (outcome :: outcomes) := by
          rw [hfirst]
          rfl

/-- Recorders that started empty can be merged, and the result is one that recorded the
operations of both. -/
theorem merge?_ofOutcomes (outcomes more : List (Bool × Nat)) :
    (ofOutcomes outcomes).merge? (ofOutcomes more) = .ok (ofOutcomes (outcomes ++ more)) := by
  have hregular := regular_ofOutcomes outcomes
  have hmax := (regular_ofOutcomes more).max_le
  have hmerge : (ofOutcomes outcomes).merge (ofOutcomes more) = ofOutcomes (outcomes ++ more) := by
    calc (ofOutcomes outcomes).merge (ofOutcomes more)
        = ((ofOutcomes outcomes).merge {}).recordAll more := merge_recordAll hregular.digits_eq more
      _ = ofOutcomes (outcomes ++ more) := by
          rw [merge_empty hregular, ofOutcomes, ofOutcomes, recordAll_append]
  rw [merge?, Histogram.merge?, if_neg (by omega), hmerge]

/-- A recorder counts the operations that it recorded. -/
theorem counts_ofOutcomes (outcomes : List (Bool × Nat)) :
    (ofOutcomes outcomes).succeeded = outcomes.countP (·.1) ∧
      (ofOutcomes outcomes).failed = outcomes.countP (!·.1) := by
  have hcounts (r : Recorder) : (r.recordAll outcomes).succeeded =
      r.succeeded + outcomes.countP (·.1) ∧
        (r.recordAll outcomes).failed = r.failed + outcomes.countP (!·.1) := by
    induction outcomes generalizing r with
    | nil => exact ⟨rfl, rfl⟩
    | cons outcome outcomes ih =>
      obtain ⟨hsucceeded, hfailed⟩ := ih (r.record outcome.1 outcome.2)
      obtain ⟨ok, nanos⟩ := outcome
      change (recordAll (r.record ok nanos) outcomes).succeeded = _ ∧
        (recordAll (r.record ok nanos) outcomes).failed = _
      rw [hsucceeded, hfailed, List.countP_cons, List.countP_cons]
      cases ok with
      | true => exact ⟨by simp [record]; omega, by simp [record]⟩
      | false => exact ⟨by simp [record], by simp [record]; omega⟩
  obtain ⟨hsucceeded, hfailed⟩ := hcounts {}
  exact ⟨by rw [ofOutcomes, hsucceeded, Nat.zero_add], by rw [ofOutcomes, hfailed, Nat.zero_add]⟩

end Recorder

/-! ## Any way to gather the operations -/

/-- How a recorder came about. -/
inductive Gathering where
  /-- It is empty. -/
  | empty
  /-- It recorded an operation. -/
  | record (before : Gathering) (ok : Bool) (nanos : Nat)
  /-- Another one was merged into it. -/
  | merge (target source : Gathering)

namespace Gathering

/-- The operations that were recorded on the way. -/
def outcomes : Gathering → List (Bool × Nat)
  | empty => []
  | record before ok nanos => before.outcomes ++ [(ok, nanos)]
  | merge target source => target.outcomes ++ source.outcomes

/-- The recorder that comes about, unless one of the merges fails. -/
def recorder? : Gathering → Except Histogram.MergeError Recorder
  | empty => .ok {}
  | record before ok nanos => do return (← before.recorder?).record ok nanos
  | merge target source => do (← target.recorder?).merge? (← source.recorder?)

/-- The recorder is one that recorded the operations itself. -/
theorem recorder?_eq (g : Gathering) : g.recorder? = .ok (.ofOutcomes g.outcomes) := by
  induction g with
  | empty => rfl
  | record before ok nanos ih =>
    rw [recorder?, ih, outcomes, Recorder.ofOutcomes, Recorder.ofOutcomes,
      Recorder.recordAll_append]
    rfl
  | merge target source iht ihs =>
    rw [recorder?, iht, ihs, outcomes]
    exact Recorder.merge?_ofOutcomes target.outcomes source.outcomes

/-- Merging loses and invents nothing. However operations are shared out to recorders,
in whatever order each records its own, and however the recorders are merged, also
with empty ones: every merge is successful, and what comes about is the recorder that
one worker would have if it had recorded all of them, so that no count, extreme,
percentile or summary is another. It has counted as many samples as there were
operations, and they are the ones that succeeded and failed. -/
theorem recorder_eq_of_perm {g : Gathering} {outcomes : List (Bool × Nat)}
    (h : outcomes.Perm g.outcomes) :
    let whole := Recorder.ofOutcomes outcomes
    g.recorder? = .ok whole ∧ whole.total = whole.latency.count ∧
      whole.succeeded = outcomes.countP (·.1) ∧ whole.failed = outcomes.countP (!·.1) := by
  intro whole
  refine ⟨?_, (Recorder.regular_ofOutcomes outcomes).total_eq, Recorder.counts_ofOutcomes outcomes⟩
  rw [recorder?_eq, ← Recorder.ofOutcomes_perm h]

/-- Merges with empty recorders, of a sample of no time and one that no bin can hold. -/
theorem recorder_eq_of_perm_extremes :
    let ends := ((empty.record true 0).record false 70000000000)
    let g := ((empty.merge ends).merge empty).merge ((empty.merge empty).record true 5)
    [(true, 5), (false, 70000000000), (true, 0)].Perm g.outcomes ∧
      ∃ whole, g.recorder? = .ok whole ∧ whole.total = 3 ∧ whole.latency.min = 1 ∧
        whole.latency.max = highestEquivalent 3 60000000000 := by
  intro ends g
  have hperm : [(true, 5), (false, 70000000000), (true, 0)].Perm g.outcomes := by decide
  obtain ⟨hwhole, -⟩ := recorder_eq_of_perm hperm
  exact ⟨hperm, _, hwhole, by decide, by decide +kernel, by decide +kernel⟩

end Gathering

end OrderStore
