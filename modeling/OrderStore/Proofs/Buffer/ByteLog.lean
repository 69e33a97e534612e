import OrderStore.Proofs.Buffer.Arena
import Mathlib.Data.List.Induction

/-!
# An arena as a log of bytes

Records may be copied into an arena at any byte, so that they overlap and a later one
hides a part of an earlier one. What a byte holds is told by the history of the calls
alone: it is the byte of the last accepted write that covers it since the arena was
cleared. One call keeps this, as it changes just the bytes it covers, and so does every
history by induction on its length. Main statement: this, and that writes and reads are
accepted exactly where a whole record lies within the arena, also where the sum of
offset and size is beyond the last word.
-/

namespace OrderStore

/-- A call that changes the bytes of an arena. -/
inductive ArenaCall where
  /-- Copy a record in at a byte offset. -/
  | write (offset : UInt64) (block : Block)
  /-- Zero every byte. -/
  | clear
deriving DecidableEq

namespace ArenaCall

/-- Whether the call is a write that an arena of `capacity` bytes accepts and that covers
byte `i`. -/
def covers (capacity i : Nat) : ArenaCall → Bool
  | write offset _ =>
    offset.toNat + recordSize ≤ capacity && offset.toNat ≤ i && i < offset.toNat + recordSize
  | clear => false

end ArenaCall

/-- The calls since the last clear, from the newest one on. -/
def sinceClear (calls : List ArenaCall) : List ArenaCall :=
  calls.reverse.takeWhile (· ≠ .clear)

/-- Byte `i` of an arena of `capacity` bytes by the history of its calls: that of the last
accepted write to cover it since the last clear, and zero if there is none. -/
def loggedByte (capacity : Nat) (calls : List ArenaCall) (i : Nat) : UInt8 :=
  match (sinceClear calls).find? (·.covers capacity i) with
  | some (.write offset block) => block.toList.getD (i - offset.toNat) 0
  | _ => 0

/-! ## How the log grows -/

section Log

variable {capacity i : Nat} {calls : List ArenaCall}

theorem sinceClear_write (calls : List ArenaCall) (offset : UInt64) (block : Block) :
    sinceClear (calls ++ [.write offset block]) = .write offset block :: sinceClear calls := by
  rw [sinceClear, List.reverse_append, List.reverse_singleton, List.singleton_append,
    List.takeWhile_cons_of_pos (by simp), sinceClear]

theorem loggedByte_clear : loggedByte capacity (calls ++ [.clear]) i = 0 := by
  have hnone : sinceClear (calls ++ [.clear]) = [] := by
    rw [sinceClear, List.reverse_append, List.reverse_singleton, List.singleton_append,
      List.takeWhile_cons_of_neg (by simp)]
  rw [loggedByte, hnone, List.find?_nil]

/-- A write that covers the byte hides what was there. -/
theorem loggedByte_write_of_covers {offset : UInt64} {block : Block}
    (h : (ArenaCall.write offset block).covers capacity i) :
    loggedByte capacity (calls ++ [.write offset block]) i =
      block.toList.getD (i - offset.toNat) 0 := by
  rw [loggedByte, sinceClear_write, List.find?_cons_of_pos h]

/-- Another write, or a refused one, leaves it. -/
theorem loggedByte_write_of_not_covers {offset : UInt64} {block : Block}
    (h : ¬(ArenaCall.write offset block).covers capacity i) :
    loggedByte capacity (calls ++ [.write offset block]) i = loggedByte capacity calls i := by
  rw [loggedByte, sinceClear_write, List.find?_cons_of_neg h, loggedByte]

end Log

/-- The end of a record at `offset`, if it is a word. -/
def recordEnd? (offset : UInt64) : Option UInt64 :=
  if offset.toNat + recordSize < UInt64.size then some (offset + UInt64.ofNat recordSize) else none

namespace Arena

/-- Whether a whole record fits at `offset`, where the end of the record has to be a word
as well. -/
def fitsInWords (a : Arena) (offset : UInt64) : Bool :=
  (recordEnd? offset).any fun recordEnd => recordEnd.toNat ≤ a.capacity

/-- A write with its answer, whether the record is accepted. -/
def tryWrite (a : Arena) (offset : UInt64) (block : Block) : Bool × Arena :=
  if a.fitsInWords offset then (true, ⟨overwrite block.toList offset.toNat a.bytes⟩)
  else (false, a)

/-! ## One call -/

/-- Makes one call. -/
def perform (a : Arena) : ArenaCall → Arena
  | .write offset block => a.write offset.toNat block
  | .clear => a.clear

/-- The arena after a history of calls. -/
def after (a : Arena) (calls : List ArenaCall) : Arena := calls.foldl perform a

theorem getElem?_new {capacity i : Nat} (hi : i < capacity) : (new capacity).bytes[i]? = some 0 := by
  rw [new, Array.getElem?_replicate, if_pos hi]

variable {a : Arena} {offset : Nat} {block : Block}

/-- In words the end of a record is found unless it lies beyond them, where there are no
bytes anyway. -/
theorem fitsInWords_eq (hcapacity : a.capacity < UInt64.size) (offset : UInt64) :
    a.fitsInWords offset = a.fits offset.toNat := by
  unfold fitsInWords recordEnd?
  split
  · next hword =>
    have hend : (offset + UInt64.ofNat recordSize).toNat = offset.toNat + recordSize := by
      rw [UInt64.toNat_add, UInt64.toNat_ofNat_of_lt' (by decide), Nat.mod_eq_of_lt hword]
    rw [Option.any_some, hend, fits]
  · have hrefused : ¬a.fits offset.toNat = true := mt fits_iff.mp (by omega)
    rw [Option.any_none, Bool.eq_false_iff.mpr hrefused]

theorem tryWrite_eq (hcapacity : a.capacity < UInt64.size) (offset : UInt64) (block : Block) :
    a.tryWrite offset block = (a.fits offset.toNat, a.write offset.toNat block) := by
  rw [tryWrite, fitsInWords_eq hcapacity, write]
  cases a.fits offset.toNat <;> rfl

theorem capacity_perform (a : Arena) (call : ArenaCall) :
    (a.perform call).capacity = a.capacity := by
  cases call with
  | write offset block => exact a.capacity_write offset.toNat block
  | clear => exact a.capacity_clear

/-- An arena of which every byte is what the history says. -/
def Follows (a : Arena) (calls : List ArenaCall) : Prop :=
  ∀ i < a.capacity, a.bytes[i]? = some (loggedByte a.capacity calls i)

theorem follows_new (capacity : Nat) : (new capacity).Follows [] := by
  intro i hi
  rw [capacity_new] at hi
  rw [getElem?_new hi]
  rfl

/-- One more call is one more entry of the log. -/
theorem Follows.perform {calls : List ArenaCall} (h : a.Follows calls) (call : ArenaCall) :
    (a.perform call).Follows (calls ++ [call]) := by
  intro i hi
  rw [capacity_perform] at hi ⊢
  cases call with
  | clear =>
    rw [loggedByte_clear]
    exact getElem?_new hi
  | write offset block =>
    by_cases hcovers : (ArenaCall.write offset block).covers a.capacity i
    · rw [loggedByte_write_of_covers hcovers]
      simp only [ArenaCall.covers, Bool.and_eq_true, decide_eq_true_eq] at hcovers
      obtain ⟨⟨hfits, hlow⟩, hhigh⟩ := hcovers
      have hbyte : i - offset.toNat < block.toList.length := by
        rw [Vector.length_toList]
        omega
      rw [Arena.perform, getElem?_write_of_inside hfits hlow hhigh, List.getD_eq_getElem?_getD,
        List.getElem?_eq_getElem hbyte, Option.getD_some]
    · -- the write is refused, or it ends before the byte, or it starts behind it
      rw [loggedByte_write_of_not_covers hcovers, ← h i hi]
      simp only [ArenaCall.covers, Bool.and_eq_true, decide_eq_true_eq] at hcovers
      rcases Nat.lt_or_ge a.capacity (offset.toNat + recordSize) with hrefused | hfits
      · rw [Arena.perform, write_of_refused hrefused]
      · exact getElem?_write_of_outside (by omega)

/-- Where a record fits the log gives its bytes. -/
theorem Follows.read {calls : List ArenaCall} (h : a.Follows calls)
    (hfits : offset + recordSize ≤ a.capacity) :
    ∃ block, a.read offset = some block ∧
      ∀ i < recordSize, block.toList[i]? = some (loggedByte a.capacity calls (offset + i)) := by
  cases hread : a.read offset with
  | none =>
    have hsmall := read_eq_none_iff.mp hread
    omega
  | some block =>
    refine ⟨block, rfl, fun i hi => ?_⟩
    rw [← read_eq_some_iff.mp hread i hi]
    exact h (offset + i) (by omega)

/-! ## Histories -/

theorem capacity_after (a : Arena) (calls : List ArenaCall) :
    (a.after calls).capacity = a.capacity := by
  induction calls generalizing a with
  | nil => rfl
  | cons call calls ih =>
    calc ((a.perform call).after calls).capacity = (a.perform call).capacity := ih _
      _ = a.capacity := capacity_perform a call

theorem follows_after (capacity : Nat) (calls : List ArenaCall) :
    ((new capacity).after calls).Follows calls := by
  induction calls using List.reverseRecOn with
  | nil => exact follows_new capacity
  | append_singleton calls call ih =>
    rw [after, List.foldl_append]
    exact ih.perform call

/-- After any history each byte of an arena is that of the last accepted write to cover it
since the last clear. A write is accepted, also if it is asked in words, exactly where the
record ends within the arena; there the log gives the record that is read, and elsewhere a
write changes nothing and nothing is read. -/
theorem after_follows_log (capacity : UInt64) (calls : List ArenaCall) :
    let a := (new capacity.toNat).after calls
    a.capacity = capacity.toNat ∧
      (∀ i < capacity.toNat, a.bytes[i]? = some (loggedByte capacity.toNat calls i)) ∧
      ∀ offset : UInt64,
        (a.fits offset.toNat = true ↔ offset.toNat + 64 ≤ capacity.toNat) ∧
        a.fitsInWords offset = a.fits offset.toNat ∧
        (∀ block, a.tryWrite offset block = (a.fits offset.toNat, a.write offset.toNat block)) ∧
        (offset.toNat + 64 ≤ capacity.toNat → ∃ block, a.read offset.toNat = some block ∧
          ∀ i < 64, block.toList[i]? =
            some (loggedByte capacity.toNat calls (offset.toNat + i))) ∧
        (¬offset.toNat + 64 ≤ capacity.toNat →
          (∀ block, a.write offset.toNat block = a) ∧ a.read offset.toNat = none) := by
  intro a
  have hcapacity : a.capacity = capacity.toNat :=
    (capacity_after _ calls).trans (capacity_new capacity.toNat)
  have hfollows : a.Follows calls := follows_after capacity.toNat calls
  have hwords : a.capacity < UInt64.size := hcapacity ▸ capacity.toNat_lt
  rw [← hcapacity]
  refine ⟨rfl, hfollows, fun offset => ⟨fits_iff, fitsInWords_eq hwords offset,
    tryWrite_eq hwords offset, hfollows.read, fun hrefused => ⟨fun _ => ?_, ?_⟩⟩⟩
  · exact write_of_refused (Nat.lt_of_not_le hrefused)
  · exact read_eq_none_iff.mpr (Nat.lt_of_not_le hrefused)

/-- Of the first record nothing is left, of the second one what the third does not hide; the
last two stick out of 130 bytes, one of them beyond the last word. -/
def overlappingWrites : List ArenaCall :=
  [.write 0 (.replicate _ 1), .clear, .write 10 (.replicate _ 2), .write 40 (.replicate _ 3),
    .write 67 (.replicate _ 4), .write 18446744073709551615 (.replicate _ 5)]

theorem after_follows_log_overlapping :
    let a := (new 130).after overlappingWrites
    (9 < 130 ∧ a.bytes[9]? = some 0) ∧ (39 < 130 ∧ a.bytes[39]? = some 2) ∧
      (103 < 130 ∧ a.bytes[103]? = some 3) ∧
      (10 + 64 ≤ 130 ∧ ∃ block, a.read 10 = some block ∧
        block.toList[29]? = some 2 ∧ block.toList[30]? = some 3) ∧
      (¬18446744073709551615 + 64 ≤ 130 ∧ a.read 18446744073709551615 = none) := by
  intro a
  obtain ⟨-, hbytes, hrecords⟩ := after_follows_log 130 overlappingWrites
  obtain ⟨-, -, -, hread, -⟩ := hrecords 10
  obtain ⟨-, -, -, -, hrefused⟩ := hrecords 18446744073709551615
  obtain ⟨block, hblock, hlog⟩ := hread (by decide)
  refine ⟨⟨by decide, ?_⟩, ⟨by decide, ?_⟩, ⟨by decide, ?_⟩, ⟨by decide, block, hblock, ?_, ?_⟩,
    ⟨by decide, (hrefused (by decide)).2⟩⟩
  · exact (hbytes 9 (by decide)).trans (by decide +kernel)
  · exact (hbytes 39 (by decide)).trans (by decide +kernel)
  · exact (hbytes 103 (by decide)).trans (by decide +kernel)
  · exact (hlog 29 (by decide)).trans (by decide +kernel)
  · exact (hlog 30 (by decide)).trans (by decide +kernel)

end Arena

end OrderStore
