import OrderStore.Optimistic.Basic
import OrderStore.Proofs.Buffer.Region

/-!
# Where orders land

Orders that are written together land on consecutive slots. A log of such
landings says which order landed last on each slot, and an arena that is written
as the log says holds the records of these orders.
-/

namespace OrderStore

/-- Consecutive slots from `first` on, each with the order that lands there. -/
def landingsFrom (first : Nat) (orders : List Order) : List (Nat × Order) :=
  orders.mapIdx fun i order => (first + i * recordSize, order)

/-- The order that landed last on an offset, by a log that lists the landings
from the oldest on. -/
def latest (log : List (Nat × Order)) (offset : Nat) : Option Order :=
  (log.reverse.find? (·.1 = offset)).map (·.2)

/-- Later landings come first. -/
theorem latest_append (log more : List (Nat × Order)) (offset : Nat) :
    latest (log ++ more) offset = (latest more offset).or (latest log offset) := by
  rw [latest, List.reverse_append, List.find?_append, Option.map_or]
  rfl

theorem latest_eq_none {log : List (Nat × Order)} {offset : Nat}
    (h : ∀ landing ∈ log, landing.1 ≠ offset) : latest log offset = none := by
  rw [latest, Option.map_eq_none_iff, List.find?_eq_none]
  intro landing hlanding
  simpa using h landing (List.mem_reverse.mp hlanding)

/-- What landed last is in the log. -/
theorem mem_of_latest {log : List (Nat × Order)} {offset : Nat} {order : Order}
    (h : latest log offset = some order) : (offset, order) ∈ log := by
  obtain ⟨landing, hfind, rfl⟩ := Option.map_eq_some_iff.mp h
  have hmem := List.mem_reverse.mp (List.mem_of_find?_eq_some hfind)
  have hoffset := List.find?_some hfind
  rwa [← of_decide_eq_true hoffset]

theorem length_landingsFrom (first : Nat) (orders : List Order) :
    (landingsFrom first orders).length = orders.length := List.length_mapIdx

theorem map_snd_landingsFrom (first : Nat) (orders : List Order) :
    (landingsFrom first orders).map Prod.snd = orders := by
  simp only [landingsFrom, List.mapIdx_eq_zipIdx_map, List.map_map]
  exact List.zipIdx_map_fst _ _

theorem landingsFrom_cons (first : Nat) (order : Order) (orders : List Order) :
    landingsFrom first (order :: orders) =
      (first, order) :: landingsFrom (first + recordSize) orders := by
  unfold landingsFrom
  rw [List.mapIdx_cons, Nat.zero_mul, Nat.add_zero]
  congr 2
  funext i order
  rw [Nat.add_mul, Nat.one_mul, Nat.add_assoc, Nat.add_comm recordSize]

theorem mem_landingsFrom_iff {first : Nat} {orders : List Order} {landing : Nat × Order} :
    landing ∈ landingsFrom first orders ↔
      ∃ i, orders[i]? = some landing.2 ∧ landing.1 = first + i * recordSize := by
  unfold landingsFrom
  rw [List.mem_mapIdx]
  constructor
  · rintro ⟨i, hi, rfl⟩
    exact ⟨i, List.getElem?_eq_getElem hi, rfl⟩
  · rintro ⟨i, hget, hoffset⟩
    obtain ⟨hi, horder⟩ := List.getElem?_eq_some_iff.mp hget
    exact ⟨i, hi, by rw [horder, ← hoffset]⟩

/-- Orders that land one behind the other are each the latest on their slot. -/
theorem latest_landingsFrom (first : Nat) (orders : List Order) (i : Nat) :
    latest (landingsFrom first orders) (first + i * recordSize) = orders[i]? := by
  induction orders generalizing first i with
  | nil => rfl
  | cons order orders ih =>
    rw [landingsFrom_cons, ← List.singleton_append, latest_append]
    have := recordSize_pos
    cases i with
    | zero =>
      rw [latest_eq_none]
      · simp [latest]
      · intro landing hlanding
        obtain ⟨j, -, hoffset⟩ := mem_landingsFrom_iff.mp hlanding
        omega
    | succ i =>
      have hslot : first + (i + 1) * recordSize = first + recordSize + i * recordSize := by
        rw [Nat.add_mul, Nat.one_mul]
        omega
      have hfirst : latest [(first, order)] (first + (i + 1) * recordSize) = none := by
        apply latest_eq_none
        rintro landing (_ | ⟨_, ⟨⟩⟩)
        dsimp only
        omega
      rw [hfirst, Option.or_none, hslot, ih, List.getElem?_cons_succ]

namespace Arena

@[simp] theorem capacity_writeAll (a : Arena) (offset : Nat) (blocks : List Block) :
    (a.writeAll offset blocks).capacity = a.capacity := by
  induction blocks generalizing a offset with
  | nil => rfl
  | cons block blocks ih => rw [writeAll, ih, capacity_write]

/-- Records outside the room that is written stay as they are. -/
theorem read_writeAll_of_outside {a : Arena} {offset other : Nat} {blocks : List Block}
    (houtside : other + recordSize ≤ offset ∨ offset + blocks.length * recordSize ≤ other) :
    (a.writeAll offset blocks).read other = a.read other := by
  induction blocks generalizing a offset with
  | nil => rfl
  | cons block blocks ih =>
    rw [List.length_cons, Nat.add_mul, Nat.one_mul] at houtside
    rw [writeAll, ih (by omega), read_write_of_disjoint _ (by omega)]

/-- Records that are written together are read back one behind the other. -/
theorem read_writeAll_of_inside {a : Arena} {offset i : Nat} {blocks : List Block}
    (hfits : offset + blocks.length * recordSize ≤ a.capacity) (hi : i < blocks.length) :
    (a.writeAll offset blocks).read (offset + i * recordSize) = blocks[i]? := by
  induction blocks generalizing a offset i with
  | nil => simp at hi
  | cons block blocks ih =>
    rw [List.length_cons, Nat.add_mul, Nat.one_mul] at hfits
    rw [writeAll]
    cases i with
    | zero =>
      rw [Nat.zero_mul, Nat.add_zero, read_writeAll_of_outside (by omega),
        read_write_self _ (by omega), List.getElem?_cons_zero]
    | succ i =>
      have hslot : offset + (i + 1) * recordSize = offset + recordSize + i * recordSize := by
        rw [Nat.add_mul, Nat.one_mul]
        omega
      rw [List.length_cons] at hi
      have hrest : offset + recordSize + blocks.length * recordSize ≤
          (a.write offset block).capacity := by
        rw [capacity_write]
        omega
      rw [hslot, ih hrest (by omega), List.getElem?_cons_succ]

end Arena

end OrderStore
