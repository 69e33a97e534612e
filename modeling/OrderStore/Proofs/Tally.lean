import Mathlib.Data.List.Perm.Subperm

/-!
# What threads contribute to a history

A history lists what each thread did, the latest first. What one kind of event
puts in, another kind takes out, and in between it is pending with its thread.
If every step keeps that balance, nothing comes out that was not put in, and
when nothing is pending all of it has come out.
-/

namespace OrderStore

variable {Event Entry : Type}

/-- What the events of a history contribute, from the oldest on, each entry with
its thread. -/
def tally (entries : Event → List Entry) (history : List (Nat × Event)) : List (Nat × Entry) :=
  history.reverse.flatMap fun event => (entries event.2).map (event.1, ·)

theorem tally_cons (entries : Event → List Entry) (t : Nat) (event : Event)
    (history : List (Nat × Event)) :
    tally entries ((t, event) :: history) =
      tally entries history ++ (entries event).map (t, ·) := by
  simp [tally]

/-- Of the entries of one event, all or none are a thread's. -/
theorem filter_map_thread (t u : Nat) (entries : List Entry) :
    (entries.map (u, ·)).filter (·.1 = t) = if u = t then entries.map (u, ·) else [] := by
  by_cases hu : u = t
  · rw [if_pos hu, List.filter_eq_self]
    intro entry hentry
    obtain ⟨contribution, -, rfl⟩ := List.mem_map.mp hentry
    simpa using hu
  · rw [if_neg hu, List.filter_eq_nil_iff]
    intro entry hentry
    obtain ⟨contribution, -, rfl⟩ := List.mem_map.mp hentry
    simpa using hu

/-- What each thread has put in has come out in the same order, but for what is
pending with it. -/
def Balanced (put out : Event → List Entry) (pending : Nat → List Entry)
    (history : List (Nat × Event)) : Prop :=
  ∀ u, (tally put history).filter (·.1 = u) =
    (tally out history).filter (·.1 = u) ++ (pending u).map (u, ·)

namespace Balanced

variable {put out : Event → List Entry} {pending pending' : Nat → List Entry}
  {history : List (Nat × Event)}

theorem nil (hnone : ∀ u, pending u = []) : Balanced put out pending [] := by
  intro u
  rw [hnone u]
  rfl

/-- A step keeps the balance if that of its thread does. -/
theorem cons (h : Balanced put out pending history) {t : Nat} {event : Event}
    (hthread : pending t ++ put event = out event ++ pending' t)
    (hothers : ∀ u, u ≠ t → pending' u = pending u) :
    Balanced put out pending' ((t, event) :: history) := by
  intro u
  rw [tally_cons, tally_cons, List.filter_append, List.filter_append, h u, filter_map_thread,
    filter_map_thread]
  by_cases hu : t = u
  · subst hu
    rw [if_pos rfl, if_pos rfl, List.append_assoc, List.append_assoc, ← List.map_append,
      ← List.map_append, hthread]
  · rw [if_neg hu, if_neg hu, hothers u (Ne.symm hu), List.append_nil, List.append_nil]

theorem count_filter_thread [BEq Entry] [LawfulBEq Entry] (entries : List (Nat × Entry))
    (entry : Nat × Entry) : (entries.filter (·.1 = entry.1)).count entry = entries.count entry :=
  List.count_filter (by simp)

/-- Nothing comes out that was not put in. -/
theorem subperm (h : Balanced put out pending history) :
    (tally out history).Subperm (tally put history) := by
  classical
  rw [List.subperm_ext_iff]
  intro entry _
  rw [← count_filter_thread (tally put history), h entry.1, List.count_append,
    count_filter_thread]
  exact Nat.le_add_right ..

/-- When nothing is pending, all that was put in has come out. -/
theorem perm (h : Balanced put out pending history) (hnone : ∀ u, pending u = []) :
    (tally put history).Perm (tally out history) := by
  classical
  rw [List.perm_iff_count]
  intro entry
  rw [← count_filter_thread (tally put history), h entry.1, hnone, List.map_nil, List.append_nil,
    count_filter_thread]

end Balanced

end OrderStore
