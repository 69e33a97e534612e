import OrderStore.Proofs.Record.RoundTrip

/-!
# What encoding keeps

Wherever a record stands among other bytes, its order is decoded with every field
as it was, except that the symbol is cut. So encoding tells two orders apart unless
they differ only in what is cut off, and the decoded order equals the original one
unless something was cut off or the price is not a number.
-/

namespace OrderStore

/-- Just the numbers equal themselves. -/
theorem Binary64.equals_self_iff (x : Binary64) : x.equals x = true ↔ x.isNaN = false := by
  simp [equals]

theorem Binary64.eq_iff_bits_eq (x y : Binary64) : x = y ↔ x.bits = y.bits := by
  rw [← Binary64.mk.injEq]

namespace Order

/-- An order equals what is stored of it if its symbol fits and its price is a
number. -/
theorem stored_equals_iff (o : Order) :
    o.stored.equals o = true ↔ o.symbol.utf8ByteSize ≤ symbolCapacity ∧ o.price.isNaN = false := by
  simp only [equals, stored, Bool.and_eq_true, beq_iff_eq, truncateSymbol_eq_self_iff,
    Binary64.equals_self_iff, true_and, and_true]

/-- The same is stored of two orders that agree except in what is cut off. -/
theorem stored_eq_iff (a b : Order) :
    a.stored = b.stored ↔ a.id = b.id ∧ truncateSymbol a.symbol = truncateSymbol b.symbol ∧
      a.price.bits = b.price.bits ∧ a.quantity = b.quantity ∧ a.side = b.side ∧
      a.orderType = b.orderType ∧ a.timestamp = b.timestamp := by
  simp only [stored, Order.mk.injEq, Binary64.eq_iff_bits_eq]

end Order

/-- What is cut off does not show in the record. -/
theorem encode_stored (o : Order) : encode o.stored = encode o := by
  simp only [encode, Record.ofOrder, Order.stored, truncateSymbol_truncateSymbol]

theorem encode_eq_iff (a b : Order) : encode a = encode b ↔ a.stored = b.stored := by
  constructor
  · intro hsame
    have hdecode := decodeBlock_encode a
    rw [hsame, decodeBlock_encode] at hdecode
    exact (Except.ok.inj hdecode).symm
  · intro hstored
    rw [← encode_stored a, hstored, encode_stored]

/-- Decoding at an offset looks at nothing but the block that starts there. -/
theorem decode_append (before : List UInt8) (b : Block) (after : List UInt8) :
    decode (before ++ b.toList ++ after) before.length = decodeBlock b := by
  have hfits : before.length + recordSize ≤ (before ++ b.toList ++ after).length := by simp
  rw [decode, dif_pos hfits]
  congr 1
  apply Vector.toList_inj.mp
  simp

/-- Decoding gives back every order that was encoded, between any other bytes: each
field bit for bit, the symbol cut to fit. Two orders have the same record exactly if
they agree on all fields after their symbols have been cut, and what is decoded
equals the order exactly if its symbol fits and its price is a number. -/
theorem decode_encode_faithful :
    (∀ (o : Order) (before after : List UInt8), ∃ decoded,
      decode (before ++ (encode o).toList ++ after) before.length = .ok decoded ∧
        (decoded.id = o.id ∧ decoded.symbol = truncateSymbol o.symbol ∧
          decoded.price.bits = o.price.bits ∧ decoded.quantity = o.quantity ∧
          decoded.side = o.side ∧ decoded.orderType = o.orderType ∧
          decoded.timestamp = o.timestamp) ∧
        (decoded.equals o = true ↔ o.symbol.utf8ByteSize ≤ 31 ∧ o.price.isNaN = false)) ∧
      ∀ a b : Order, encode a = encode b ↔
        a.id = b.id ∧ truncateSymbol a.symbol = truncateSymbol b.symbol ∧
          a.price.bits = b.price.bits ∧ a.quantity = b.quantity ∧ a.side = b.side ∧
          a.orderType = b.orderType ∧ a.timestamp = b.timestamp := by
  constructor
  · intro o before after
    refine ⟨o.stored, ?_, ?_, o.stored_equals_iff⟩
    · rw [decode_append, decodeBlock_encode]
    · simp [Order.stored]
  · intro a b
    rw [encode_eq_iff, Order.stored_eq_iff]

end OrderStore
