import OrderStore.Proofs.Benchmark.Workload

/-!
# Joining writers

Readers go round until they are released, so the program would never end if a lost
writer kept it from releasing them, or if it left before it had waited for the others.
Here the joining of writers is taken apart, whatever waiting and releasing are: both are
always done, all waiting first, and whether a writer is lost is only looked at then. The
outcomes of writers that are not lost are never lost in the merge.
-/

namespace OrderStore

variable {m : Type → Type}

/-- A writer that is about to be joined. -/
structure Writer (m : Type → Type) where
  /-- Waits for its end. -/
  wait : m Unit
  /-- The outcomes that it has recorded, unless it ends without a result. -/
  outcomes : Option (List (Bool × ℕ))

/-- Waits for a writer and takes its recorder. -/
def Writer.join [Monad m] (w : Writer m) : m (Option Recorder) := do
  w.wait
  return w.outcomes.map .ofOutcomes

section

variable [Monad m] [LawfulMonad m]

/-- Each writer is waited for, also behind a lost one. -/
theorem mapM_join (writers : List (Writer m)) :
    (writers.map Writer.join).mapM id = do
      writers.forM Writer.wait
      return (writers.map Writer.outcomes).map (Option.map Recorder.ofOutcomes) := by
  induction writers with
  | nil => simp
  | cons w writers ih =>
    rw [List.map_cons, List.mapM_cons, ih]
    simp [Writer.join]

/-- Nothing that a writer did decides whether others are waited for or readers are
released. -/
theorem joinWriters_eq (writers : List (Writer m)) (release : m Unit) :
    joinWriters (writers.map Writer.join) release = do
      writers.forM Writer.wait
      release
      return mergeWriters {}
        ((writers.map Writer.outcomes).map (Option.map Recorder.ofOutcomes)) := by
  rw [joinWriters, mapM_join]
  simp

end

/-- A lost writer is noticed at any place, as no merge before it fails. Without one, every
outcome is there. -/
theorem mergeWriters_cases (before : List (Bool × ℕ)) (parts : List (Option (List (Bool × ℕ)))) :
    let merged := mergeWriters (.ofOutcomes before) (parts.map (Option.map Recorder.ofOutcomes))
    none ∈ parts ∧ merged = .error .noResult ∨
      ∃ all : List (List (Bool × ℕ)), parts = all.map some ∧
        merged = .ok (.ofOutcomes (before ++ all.flatten)) := by
  induction parts generalizing before with
  | nil =>
    right
    refine ⟨[], rfl, ?_⟩
    rw [List.flatten_nil, List.append_nil]
    rfl
  | cons part parts ih =>
    cases part with
    | none => exact .inl ⟨List.mem_cons_self, rfl⟩
    | some outcomes =>
      dsimp only
      rw [List.map_cons, Option.map_some, mergeWriters, Recorder.merge?_ofOutcomes]
      rcases ih (before ++ outcomes) with ⟨hlost, hmerge⟩ | ⟨all, rfl, hmerge⟩
      · exact .inl ⟨List.mem_cons_of_mem _ hlost, hmerge⟩
      · right
        refine ⟨outcomes :: all, rfl, ?_⟩
        rw [List.flatten_cons, ← List.append_assoc]
        exact hmerge

/-- Joining waits for every writer, in order, and then releases the readers, and nothing
else has an effect, whichever writers are lost. Its result is a fault just if a writer is
lost, and then it says so. Otherwise it is the recorder that one worker would have if it
had recorded the outcomes of all writers by itself, in any order: no count, extreme,
percentile or summary depends on how they were shared out to writers or in which order
these are joined. -/
theorem joinWriters_outcome [Monad m] [LawfulMonad m] (writers : List (Writer m))
    (release : m Unit) :
    ∃ result : Except LostWriter Recorder,
      (joinWriters (writers.map Writer.join) release = do
        writers.forM Writer.wait
        release
        return result) ∧
      ((∃ fault, result = .error fault) ↔ ∃ w ∈ writers, w.outcomes = none) ∧
      (∀ fault, result = .error fault → fault = .noResult) ∧
      ∀ parts : List (List (Bool × ℕ)), writers.map Writer.outcomes = parts.map some →
        ∀ outcomes, outcomes.Perm parts.flatten → result = .ok (.ofOutcomes outcomes) := by
  refine ⟨_, joinWriters_eq writers release, ?_⟩
  have hlost : (∃ w ∈ writers, w.outcomes = none) ↔ none ∈ writers.map Writer.outcomes :=
    List.mem_map.symm
  rw [hlost]
  rcases mergeWriters_cases [] (writers.map Writer.outcomes) with
    ⟨hnone, hmerge⟩ | ⟨all, hall, hmerge⟩
  · refine ⟨iff_of_true ⟨_, hmerge⟩ hnone, fun fault hfault => ?_, fun parts hparts => ?_⟩
    · exact (Except.error.inj (hmerge.symm.trans hfault)).symm
    · rw [hparts] at hnone
      simp at hnone
  · have hok (fault : LostWriter) : mergeWriters {}
        ((writers.map Writer.outcomes).map (Option.map Recorder.ofOutcomes)) ≠ .error fault :=
      fun hfault => nomatch hmerge.symm.trans hfault
    refine ⟨iff_of_false (fun ⟨fault, h⟩ => hok fault h) (by simp [hall]),
      fun fault h => absurd h (hok fault), fun parts hparts outcomes hperm => ?_⟩
    obtain rfl : all = parts :=
      List.map_injective_iff.mpr (Option.some_injective _) (hall.symm.trans hparts)
    rw [Recorder.ofOutcomes_perm hperm]
    exact hmerge

/-- Surroundings that note which writers were waited for, and whether readers have been
released since. -/
theorem joinWriters_outcome_noted :
    let writer (place : ℕ) (outcomes : Option (List (Bool × ℕ))) :
        Writer (StateM (List ℕ × Bool)) :=
      ⟨modify fun (noted, _) => (noted ++ [place], false), outcomes⟩
    let release : StateM (List ℕ × Bool) Unit := modify fun (noted, _) => (noted, true)
    let lost := [writer 0 (some [(true, 100)]), writer 1 none, writer 2 (some [(false, 200)])]
    let shared := [writer 0 (some [(true, 100), (false, 9)]), writer 1 (some []),
      writer 2 (some [(true, 70)])]
    (joinWriters (lost.map Writer.join) release).run ([], false) =
      (.error .noResult, [0, 1, 2], true) ∧
    (joinWriters (shared.map Writer.join) release).run ([], false) =
      (.ok (.ofOutcomes [(true, 70), (false, 9), (true, 100)]), [0, 1, 2], true) := by
  intro writer release lost shared
  constructor
  · obtain ⟨result, hjoin, hlost, hfault, -⟩ := joinWriters_outcome lost release
    obtain ⟨fault, rfl⟩ := hlost.mpr ⟨writer 1 none, by simp [lost], rfl⟩
    rw [hjoin, hfault fault rfl]
    rfl
  · obtain ⟨result, hjoin, -, -, hall⟩ := joinWriters_outcome shared release
    have hperm : [(true, 70), (false, 9), (true, 100)].Perm
        [[(true, 100), (false, 9)], [], [(true, 70)]].flatten := by decide
    rw [hjoin, hall _ rfl _ hperm]
    rfl

end OrderStore
