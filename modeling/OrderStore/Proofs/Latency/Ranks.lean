import OrderStore.Latency.Percentile
import OrderStore.Proofs.Binary64.Rounding
import OrderStore.Proofs.Latency.Merging
import Mathlib.Data.List.Induction
import Mathlib.Order.MinMax

/-!
# What a histogram knows of its samples

A histogram that counted some values, in whatever order, knows of each the least value of
its bin. Written out by increasing value these are the least equivalents of the sorted
values, so the bin of a rank is the bin of the value of that rank, and the extremes are
the values of the first and the last rank. A merge counts the values of the other
histogram, or what the other histogram knows of them.
-/

namespace OrderStore

/-! ## The value of a rank -/

/-- The value of a rank among some values, the smallest having rank one. -/
def nthSmallest (values : List Nat) (rank : Nat) : Nat :=
  (values.mergeSort).getD (rank - 1) 0

section NthSmallest

variable {values : List Nat} {rank : Nat}

theorem pairwise_mergeSort_le (values : List Nat) : values.mergeSort.Pairwise (· ≤ ·) := by
  have hsorted : values.mergeSort.Pairwise fun a b => decide (a ≤ b) = true := by
    apply List.pairwise_mergeSort
    · intro a b c hab hbc
      simp only [decide_eq_true_eq] at *
      omega
    · intro a b
      simp only [Bool.or_eq_true, decide_eq_true_eq]
      omega
  exact hsorted.imp of_decide_eq_true

/-- In a sorted list the values up to a bound come first. -/
theorem getElem_le_iff_lt_countP {sorted : List Nat} (hsorted : sorted.Pairwise (· ≤ ·))
    {index : Nat} (hindex : index < sorted.length) (bound : Nat) :
    sorted[index] ≤ bound ↔ index < sorted.countP (· ≤ bound) := by
  induction sorted generalizing index with
  | nil => cases hindex
  | cons first rest ih =>
    obtain ⟨hfirst, hrest⟩ := List.pairwise_cons.mp hsorted
    by_cases hle : first ≤ bound
    · rw [List.countP_cons_of_pos (by simpa using hle)]
      cases index with
      | zero => simp [hle]
      | succ index =>
        rw [List.getElem_cons_succ, ih hrest]
        omega
    · -- nothing behind a value above the bound is below it
      have hnone : (first :: rest).countP (· ≤ bound) = 0 := by
        rw [List.countP_eq_zero]
        intro value hvalue
        rcases List.mem_cons.mp hvalue with rfl | hmem
        · simpa using hle
        · have := hfirst value hmem
          simp only [decide_eq_true_eq]
          omega
      have hmem : (first :: rest)[index] ∈ first :: rest := List.getElem_mem hindex
      have habove : first ≤ (first :: rest)[index] := by
        rcases List.mem_cons.mp hmem with heq | hmem
        · exact Nat.le_of_eq heq.symm
        · exact hfirst _ hmem
      rw [hnone]
      omega

theorem getElem?_mergeSort (hpos : 0 < rank) (hrank : rank ≤ values.length) :
    values.mergeSort[rank - 1]? = some (nthSmallest values rank) := by
  have hindex : rank - 1 < values.mergeSort.length := by
    rw [List.length_mergeSort]
    omega
  rw [nthSmallest, List.getD_eq_getElem?_getD, List.getElem?_eq_getElem hindex, Option.getD_some]

/-- The value of a rank is within a bound when that many values are. -/
theorem nthSmallest_le_iff (hpos : 0 < rank) (hrank : rank ≤ values.length) (bound : Nat) :
    nthSmallest values rank ≤ bound ↔ rank ≤ values.countP (· ≤ bound) := by
  have hindex : rank - 1 < values.mergeSort.length := by
    rw [List.length_mergeSort]
    omega
  have hvalue : values.mergeSort[rank - 1] = nthSmallest values rank := by
    have := getElem?_mergeSort hpos hrank
    rwa [List.getElem?_eq_getElem hindex, Option.some_inj] at this
  rw [← hvalue, getElem_le_iff_lt_countP (pairwise_mergeSort_le values) hindex,
    (List.mergeSort_perm values _).countP_eq]
  omega

/-- A higher rank has no smaller value. -/
theorem nthSmallest_mono {higher : Nat} (hpos : 0 < rank) (hle : rank ≤ higher)
    (hhigher : higher ≤ values.length) : nthSmallest values rank ≤ nthSmallest values higher := by
  have hself := (nthSmallest_le_iff (by omega) hhigher _).mp (Nat.le_refl (nthSmallest values higher))
  exact (nthSmallest_le_iff hpos (by omega) _).mpr (Nat.le_trans hle hself)

/-- The smallest value is within a bound when one of them is. -/
theorem nthSmallest_one_le_iff (hvalues : values ≠ []) (bound : Nat) :
    nthSmallest values 1 ≤ bound ↔ ∃ value ∈ values, value ≤ bound := by
  have hlength := List.length_pos_iff.mpr hvalues
  rw [nthSmallest_le_iff (by decide) hlength, Nat.succ_le_iff, List.countP_pos_iff]
  simp only [decide_eq_true_eq]

/-- The largest value is within a bound when all of them are. -/
theorem nthSmallest_length_le_iff (hvalues : values ≠ []) (bound : Nat) :
    nthSmallest values values.length ≤ bound ↔ ∀ value ∈ values, value ≤ bound := by
  have hlength := List.length_pos_iff.mpr hvalues
  have hcount := values.countP_le_length (p := (· ≤ bound))
  rw [nthSmallest_le_iff hlength (Nat.le_refl _)]
  constructor
  · intro hall
    have := List.countP_eq_length.mp (Nat.le_antisymm hcount hall)
    simpa only [decide_eq_true_eq] using this
  · intro hall
    have : values.countP (· ≤ bound) = values.length :=
      List.countP_eq_length.mpr (by simpa only [decide_eq_true_eq] using hall)
    omega

end NthSmallest

/-! ## The samples in the bins -/

/-- The least value of a bin for each sample in it, by increasing value. -/
def lowestValues (bins : List Bin) : List Nat :=
  bins.flatMap fun bin => List.replicate bin.count bin.lowest

section Bins

variable (lowest count : Nat) (bins : List Bin)

theorem lowestValues_cons (bin : Bin) :
    lowestValues (bin :: bins) = List.replicate bin.count bin.lowest ++ lowestValues bins :=
  List.flatMap_cons

theorem length_lowestValues :
    (lowestValues bins).length = bins.foldr (fun bin total => bin.count + total) 0 := by
  induction bins with
  | nil => rfl
  | cons bin bins ih =>
    rw [lowestValues_cons, List.length_append, List.length_replicate, ih, List.foldr_cons]

theorem lowestValues_addToBins :
    (lowestValues (addToBins lowest count bins)).Perm
      (List.replicate count lowest ++ lowestValues bins) := by
  induction bins with
  | nil => exact List.Perm.refl _
  | cons bin bins ih =>
    rw [addToBins]
    split
    · exact List.Perm.refl _
    · split
      · next heq =>
        rw [lowestValues_cons, lowestValues_cons, ← List.append_assoc, ← heq,
          List.replicate_append_replicate, Nat.add_comm]
      · rw [lowestValues_cons, lowestValues_cons]
        exact (ih.append_left _).trans (List.perm_append_comm_assoc ..)

/-- Bins by increasing value, each with a sample. -/
structure Ordered (bins : List Bin) : Prop where
  /-- The bins come by increasing value. -/
  increasing : bins.Pairwise (·.lowest < ·.lowest)
  /-- Every bin holds a sample. -/
  count_pos : ∀ bin ∈ bins, 0 < bin.count

variable {count bins}

theorem Ordered.addToBins (h : Ordered bins) (hcount : 0 < count) :
    Ordered (addToBins lowest count bins) := by
  -- whatever lies above both the sample and the bins lies above the bins with the sample
  have hmem (bins : List Bin) (bin : Bin) (hbin : bin ∈ OrderStore.addToBins lowest count bins) :
      bin.lowest = lowest ∨ ∃ old ∈ bins, bin.lowest = old.lowest := by
    induction bins with
    | nil => grind [OrderStore.addToBins]
    | cons first bins ih => grind [OrderStore.addToBins]
  obtain ⟨hincreasing, hpos⟩ := h
  induction bins with
  | nil => exact ⟨by simp [OrderStore.addToBins], by simpa [OrderStore.addToBins] using hcount⟩
  | cons first bins ih =>
    obtain ⟨hfirst, hbins⟩ := List.pairwise_cons.mp hincreasing
    obtain ⟨hcountFirst, hcounts⟩ := List.forall_mem_cons.mp hpos
    rw [OrderStore.addToBins]
    split
    · next hlt =>
      refine ⟨List.pairwise_cons.mpr ⟨fun bin hbin => ?_, hincreasing⟩,
        List.forall_mem_cons.mpr ⟨hcount, hpos⟩⟩
      rcases List.mem_cons.mp hbin with rfl | hbin
      · exact hlt
      · exact Nat.lt_trans hlt (hfirst bin hbin)
    · split
      · next heq =>
        exact ⟨List.pairwise_cons.mpr ⟨heq ▸ hfirst, hbins⟩,
          List.forall_mem_cons.mpr ⟨Nat.add_pos_right _ hcount, hcounts⟩⟩
      · obtain ⟨hincreasing', hpos'⟩ := ih hbins hcounts
        refine ⟨List.pairwise_cons.mpr ⟨fun bin hbin => ?_, hincreasing'⟩,
          List.forall_mem_cons.mpr ⟨hcountFirst, hpos'⟩⟩
        rcases hmem bins bin hbin with hlowest | ⟨old, hold, hlowest⟩
        · omega
        · have := hfirst old hold
          omega

theorem Ordered.pairwise_lowestValues (h : Ordered bins) :
    (lowestValues bins).Pairwise (· ≤ ·) := by
  rw [lowestValues, List.pairwise_flatMap]
  refine ⟨fun bin _ => by simp, h.increasing.imp fun hlt => ?_⟩
  intro a ha b hb
  rw [List.eq_of_mem_replicate ha, List.eq_of_mem_replicate hb]
  exact Nat.le_of_lt hlt

/-- The bin of a rank is that of the value of that rank. -/
theorem map_binOfRank {rank : Nat} (hrank : 0 < rank) (bins : List Bin) :
    (Histogram.binOfRank rank bins).map Bin.lowest = (lowestValues bins)[rank - 1]? := by
  induction bins generalizing rank with
  | nil => rfl
  | cons bin bins ih =>
    rw [Histogram.binOfRank, lowestValues_cons]
    split
    · next hle =>
      rw [List.getElem?_append_left (by rw [List.length_replicate]; omega),
        List.getElem?_replicate_of_lt (by omega), Option.map_some]
    · rw [List.getElem?_append_right (by rw [List.length_replicate]; omega),
        List.length_replicate, ih (by omega)]
      congr 1
      omega

end Bins

/-! ## Histograms of known values -/

/-- A sample the bins can hold counts for what it is, no time as one nanosecond. -/
theorem map_countedAs_of_le {samples : List Nat}
    (h : ∀ sample ∈ samples, sample ≤ maxBinnedNanos) :
    samples.map countedAs = samples.map (max · 1) := by
  refine List.map_congr_left fun sample hsample => ?_
  have := h sample hsample
  rw [countedAs, if_neg (by omega)]

namespace Histogram

/-- The histogram with several more values, each of which the bins can hold. -/
def addAll (h : Histogram) (values : List Nat) : Histogram :=
  values.foldl (fun h value => h.add value 1) h

/-- A histogram that counted exactly these values. -/
def ofValues (digits : Nat) (values : List Nat) : Histogram :=
  addAll { digits } values

/-- The histogram with several more samples. -/
def recordAll (h : Histogram) (samples : List Nat) : Histogram :=
  samples.foldl record h

section AddAll

variable (h : Histogram)

/-- Samples are counted as what the bins can hold. -/
theorem recordAll_eq (samples : List Nat) :
    h.recordAll samples = h.addAll (samples.map countedAs) := by
  rw [addAll, List.foldl_map]
  rfl

theorem addAll_append (values more : List Nat) :
    h.addAll (values ++ more) = (h.addAll values).addAll more :=
  List.foldl_append

theorem digits_addAll (values : List Nat) : (h.addAll values).digits = h.digits := by
  induction values generalizing h with
  | nil => rfl
  | cons value values ih => exact ih (h.add value 1)

/-- The order of the values does not matter. -/
theorem addAll_perm {values values' : List Nat} (hperm : values.Perm values') :
    h.addAll values = h.addAll values' :=
  hperm.foldl_eq' (fun a _ b _ h => add_add_comm h a b 1 1) h

/-- Several samples of one value may be counted at once. -/
theorem addAll_replicate (value : Nat) {count : Nat} (hcount : 0 < count) :
    h.addAll (List.replicate count value) = h.add value count := by
  induction count with
  | zero => cases hcount
  | succ count ih =>
    rcases Nat.eq_zero_or_pos count with rfl | hpos
    · rfl
    rw [List.replicate_succ', addAll_append, ih hpos]
    change (h.add value count).add value 1 = h.add value (count + 1)
    simp only [add]
    rw [addToBins_addToBins, Extremes.join_assoc]
    simp only [Extremes.join, Nat.min_self, Nat.max_self]

theorem ordered_addAll (hordered : Ordered h.bins) (values : List Nat) :
    Ordered (h.addAll values).bins := by
  induction values generalizing h with
  | nil => exact hordered
  | cons value values ih => exact ih (h.add value 1) (hordered.addToBins _ (by decide))

theorem lowestValues_addAll (values : List Nat) :
    (lowestValues (h.addAll values).bins).Perm
      (values.map (lowestEquivalent h.digits) ++ lowestValues h.bins) := by
  induction values generalizing h with
  | nil => exact List.Perm.refl _
  | cons value values ih =>
    have hfirst : (lowestValues (h.add value 1).bins).Perm
        (lowestEquivalent h.digits value :: lowestValues h.bins) :=
      lowestValues_addToBins (lowestEquivalent h.digits value) 1 h.bins
    exact ((ih (h.add value 1)).trans (hfirst.append_left _)).trans List.perm_middle

end AddAll

theorem withPrecision_eq {digits : Nat} (h : digits ≤ 5) :
    withPrecision digits = .ok { digits } :=
  if_pos h

section OfValues

variable (digits : Nat) (values : List Nat)

theorem ofValues_append (more : List Nat) :
    ofValues digits (values ++ more) = (ofValues digits values).addAll more :=
  addAll_append ..

theorem digits_ofValues : (ofValues digits values).digits = digits := digits_addAll ..

theorem ordered_ofValues : Ordered (ofValues digits values).bins :=
  ordered_addAll _ ⟨List.Pairwise.nil, List.forall_mem_nil _⟩ values

/-- What is known of the values are their least equivalents, by increasing value. -/
theorem lowestValues_ofValues :
    lowestValues (ofValues digits values).bins =
      values.mergeSort.map (lowestEquivalent digits) := by
  have hperm : (lowestValues (ofValues digits values).bins).Perm
      (values.map (lowestEquivalent digits)) := by
    have := lowestValues_addAll { digits } values
    rwa [show lowestValues [] = [] from rfl, List.append_nil] at this
  have hsorted : (values.mergeSort.map (lowestEquivalent digits)).Pairwise (· ≤ ·) :=
    (pairwise_mergeSort_le values).map _ fun _ _ => lowestEquivalent_mono digits
  exact (hperm.trans ((List.mergeSort_perm values _).map _).symm).eq_of_pairwise
    (fun _ _ _ _ => Nat.le_antisymm) (ordered_ofValues digits values).pairwise_lowestValues hsorted

theorem count_ofValues : (ofValues digits values).count = values.length := by
  rw [count, ← length_lowestValues, lowestValues_ofValues, List.length_map, List.length_mergeSort]

variable {values}

/-- The extremes are the values of the first and the last rank. -/
theorem extremes_ofValues (hvalues : values ≠ []) :
    (ofValues digits values).extremes =
      some ⟨nthSmallest values 1, nthSmallest values values.length⟩ := by
  induction values using List.reverseRecOn with
  | nil => exact absurd rfl hvalues
  | append_singleton values value ih =>
    have hstep : (ofValues digits (values ++ [value])).extremes =
        Extremes.join (ofValues digits values).extremes (some ⟨value, value⟩) := by
      rw [ofValues_append]
      rfl
    rcases eq_or_ne values [] with rfl | hne
    · rw [hstep]
      simp [ofValues, addAll, Extremes.join, nthSmallest]
    · have hsmallest : nthSmallest (values ++ [value]) 1 = Min.min (nthSmallest values 1) value := by
        refine eq_of_forall_ge_iff fun bound => ?_
        rw [nthSmallest_one_le_iff hvalues, min_le_iff, nthSmallest_one_le_iff hne]
        simp only [List.mem_append, List.mem_singleton, or_and_right, exists_or, exists_eq_left]
      have hlargest : nthSmallest (values ++ [value]) (values ++ [value]).length =
          Max.max (nthSmallest values values.length) value := by
        refine eq_of_forall_ge_iff fun bound => ?_
        rw [nthSmallest_length_le_iff hvalues, max_le_iff, nthSmallest_length_le_iff hne]
        simp only [List.mem_append, List.mem_singleton, or_imp, forall_and, forall_eq]
      rw [hstep, ih hne, hsmallest, hlargest]
      rfl

theorem min_ofValues (hvalues : values ≠ []) :
    (ofValues digits values).min = lowestEquivalent digits (nthSmallest values 1) := by
  rw [min, extremes_ofValues digits hvalues, digits_ofValues]

theorem max_ofValues (hvalues : values ≠ []) :
    (ofValues digits values).max =
      highestEquivalent digits (nthSmallest values values.length) := by
  rw [max, extremes_ofValues digits hvalues, digits_ofValues]

end OfValues

end Histogram

theorem rankOf_pos (percentile : Binary64) (count : Nat) : 0 < rankOf percentile count := by
  unfold rankOf
  split <;> omega

/-- How many samples a share of them is rounded up to. -/
theorem ceil_quantile_mul_le_iff (percentile : Binary64) {count : Nat} (hcount : count ≤ 2 ^ 53)
    (rank : Nat) :
    ((quantile percentile).mul (.ofNat count)).ceil ≤ rank ↔
      Magnitude.rounded ((quantile percentile).units * count) 1 ≤ rank * Magnitude.unitsInOne := by
  rw [Magnitude.ceil_le_iff, Magnitude.units_mul_ofNat hcount]

/-- The share of a percentile is a number and zero. -/
def IsZeroShare (percentile : Binary64) : Prop :=
  percentile.isNaN = false ∧ (quantile percentile).units = 0

instance (percentile : Binary64) : Decidable (IsZeroShare percentile) :=
  inferInstanceAs (Decidable (_ ∧ _))

namespace Histogram

section OfValues

variable (digits : Nat) {values : List Nat}

/-- The value at a percentile is an end of the bin of the value of its rank. -/
theorem valueAt_ofValues {percentile : Binary64}
    (hrank : rankOf percentile values.length ≤ values.length) :
    (ofValues digits values).valueAt percentile =
      if IsZeroShare percentile then
        lowestEquivalent digits (nthSmallest values (rankOf percentile values.length))
      else highestEquivalent digits (nthSmallest values (rankOf percentile values.length)) := by
  have hpos := rankOf_pos percentile values.length
  have hbin := map_binOfRank hpos (ofValues digits values).bins
  rw [lowestValues_ofValues, List.getElem?_map, getElem?_mergeSort hpos hrank, Option.map_some,
    Option.map_eq_some_iff] at hbin
  obtain ⟨bin, hfound, hlowest⟩ := hbin
  rw [valueAt, count_ofValues, hfound, digits_ofValues]
  have hzero : (!percentile.isNaN && (quantile percentile).units == 0) =
      decide (IsZeroShare percentile) := by
    rw [Bool.eq_iff_iff, decide_eq_true_eq]
    simp [IsZeroShare]
  simp only [hzero, decide_eq_true_eq, hlowest, highestEquivalent_lowestEquivalent]

/-- The value at a percentile is in the bin of the value of its rank. -/
theorem valueAt_ofValues_mem_bin {percentile : Binary64}
    (hrank : rankOf percentile values.length ≤ values.length) :
    lowestEquivalent digits (nthSmallest values (rankOf percentile values.length)) ≤
        (ofValues digits values).valueAt percentile ∧
      (ofValues digits values).valueAt percentile ≤
        highestEquivalent digits (nthSmallest values (rankOf percentile values.length)) := by
  rw [valueAt_ofValues digits hrank]
  split_ifs
  · exact ⟨Nat.le_refl _, lowestEquivalent_le_highestEquivalent ..⟩
  · exact ⟨lowestEquivalent_le_highestEquivalent .., Nat.le_refl _⟩

/-- There is no value at a percentile whose rank no sample has. -/
theorem valueAt_ofValues_of_lt {percentile : Binary64}
    (hrank : values.length < rankOf percentile values.length) :
    (ofValues digits values).valueAt percentile = 0 := by
  have hbin := map_binOfRank (rankOf_pos percentile values.length) (ofValues digits values).bins
  have hnone : (lowestValues (ofValues digits values).bins)[rankOf percentile values.length - 1]? =
      none := by
    rw [lowestValues_ofValues, List.getElem?_eq_none_iff, List.length_map, List.length_mergeSort]
    omega
  rw [hnone, Option.map_eq_none_iff] at hbin
  rw [valueAt, count_ofValues, hbin]

/-- A merge of histograms of one precision counts the values of the other one, any other
merge the least equivalent to each of them. -/
theorem merge_ofValues (h : Histogram) (values : List Nat) :
    h.merge (ofValues digits values) =
      h.addAll (if h.digits = digits then values else values.map (lowestEquivalent digits)) := by
  by_cases hsame : h.digits = digits
  · rw [if_pos hsame]
    induction values using List.reverseRecOn with
    | nil =>
      have hnew : ofValues digits [] = { digits := h.digits } := by
        rw [hsame]
        rfl
      rw [hnew, merge_new]
      rfl
    | append_singleton values value ih =>
      have hdigits : h.digits = (ofValues digits values).digits := by
        rw [digits_ofValues, hsame]
      rw [ofValues_append, addAll_append, ← ih]
      exact merge_add _ _ hdigits value 1
  · have hdigits : ¬h.digits = (ofValues digits values).digits := by rwa [digits_ofValues]
    have hbins (bins : List Bin) (hcounts : ∀ bin ∈ bins, 0 < bin.count) (h : Histogram) :
        bins.foldl (fun h bin => h.add bin.lowest bin.count) h = h.addAll (lowestValues bins) := by
      induction bins generalizing h with
      | nil => rfl
      | cons bin bins ih =>
        obtain ⟨hcount, hcounts⟩ := List.forall_mem_cons.mp hcounts
        rw [List.foldl_cons, ih hcounts, lowestValues_cons, addAll_append,
          addAll_replicate _ _ hcount]
    rw [if_neg hsame, merge, if_neg hdigits, hbins _ (ordered_ofValues digits values).count_pos,
      lowestValues_ofValues]
    exact addAll_perm _ ((List.mergeSort_perm values _).map _)

/-- Histograms whose values the bins can hold can be merged. -/
theorem merge?_ofValues (h : Histogram) (hvalues : ∀ value ∈ values, value ≤ maxBinnedNanos) :
    h.merge? (ofValues digits values) = .ok (h.merge (ofValues digits values)) := by
  have hmax : (ofValues digits values).max ≤ maxBinnedNanos := by
    rcases eq_or_ne values [] with rfl | hne
    · exact Nat.zero_le _
    · rw [max_ofValues digits hne]
      exact highestEquivalent_le digits ((nthSmallest_length_le_iff hne _).mpr hvalues)
  rw [merge?, if_neg (by omega)]

end OfValues

end Histogram

end OrderStore
