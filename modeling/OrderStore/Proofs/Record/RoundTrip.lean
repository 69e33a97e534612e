import OrderStore.Proofs.Symbol
import OrderStore.Record.Codec
import Mathlib.Algebra.GroupWithZero.Nat

/-!
# Records read back

A record is the only reading of its block, and an order comes back from its
block with nothing changed but its symbol, which is cut. Both follow from where
each field of a record stands among its bytes.
-/

namespace OrderStore

/-- What a store keeps of an order: all of it, with the symbol cut to fit. -/
def Order.stored (o : Order) : Order := { o with symbol := truncateSymbol o.symbol }

theorem Side.ofCode?_eq_some_iff {byte : UInt8} {side : Side} :
    ofCode? byte = some side ↔ byte = side.code := by
  constructor
  · intro h
    unfold ofCode? at h
    split at h
    · cases h
      assumption
    · split at h <;> cases h
      assumption
  · rintro rfl
    cases side <;> rfl

theorem OrderType.ofCode?_eq_some_iff {byte : UInt8} {orderType : OrderType} :
    ofCode? byte = some orderType ↔ byte = orderType.code := by
  constructor
  · intro h
    unfold ofCode? at h
    split at h
    · cases h
      assumption
    · split at h <;> cases h
      assumption
  · rintro rfl
    cases orderType <;> rfl

/-- Little-endian bytes stand for the number up to their width. -/
theorem ofLittleEndian_littleEndian (width n : Nat) :
    ofLittleEndian (littleEndian width n) = n % 256 ^ width := by
  induction width generalizing n with
  | zero => simp [littleEndian, ofLittleEndian, Nat.mod_one]
  | succ width ih =>
    have hlow : (UInt8.ofNat n).toNat = n % 256 := UInt8.toNat_ofNat'
    rw [littleEndian, ofLittleEndian, ih, hlow, Nat.pow_succ', Nat.mod_mul]

namespace Record

theorem toList_toBlock (r : Record) : r.toBlock.toList = r.bytes := by
  simp [toBlock]

/-- A field that stands behind `before` is cut out of the block by its offsets. -/
theorem toList_extract_toBlock {r : Record} {field : List UInt8} {start stop : Nat}
    (before after : List UInt8) (hbytes : r.bytes = before ++ field ++ after) (hstart : before.length = start)
    (hstop : start + field.length = stop) :
    (r.toBlock.extract start stop).toList = field := by
  rw [Vector.toList_extract, toList_toBlock, hbytes, List.append_assoc,
    List.drop_append_of_le_length (by omega), ← hstart, List.drop_length, List.nil_append,
    List.take_append_of_le_length (by omega), List.take_of_length_le (by omega)]

theorem wordAt_toBlock {r : Record} {after : List UInt8} {offset width n : Nat}
    (before : List UInt8) (hbytes : r.bytes = before ++ littleEndian width n ++ after)
    (hoffset : before.length = offset) :
    wordAt r.toBlock offset width = n % 256 ^ width := by
  rw [wordAt, toList_extract_toBlock before after hbytes hoffset (by simp), ofLittleEndian_littleEndian]

theorem get_toBlock {r : Record} {after : List UInt8} {byte : UInt8} {offset : Nat}
    (before : List UInt8) (hbytes : r.bytes = before ++ byte :: after)
    (hoffset : before.length = offset) (h : offset < recordSize) :
    r.toBlock.get ⟨offset, h⟩ = byte := by
  subst hoffset
  have hget : r.toBlock.get ⟨before.length, h⟩ =
      r.bytes.get ⟨before.length, by rwa [length_bytes]⟩ := by
    simp only [toBlock, Vector.get, List.getElem_toArray]
    rfl
  rw [hget]
  simp [hbytes]

/-- The bytes of the four words that come first. -/
def wordBytes (r : Record) : List UInt8 :=
  littleEndian 4 r.id.toNat ++ littleEndian 8 r.price.bits.toNat ++
    littleEndian 4 r.quantity.toUInt32.toNat ++ littleEndian 8 r.timestamp.toUInt64.toNat

theorem length_wordBytes (r : Record) : r.wordBytes.length = 24 := by simp [wordBytes]

theorem bytes_eq_wordBytes_append (r : Record) : r.bytes = r.wordBytes ++
    ([r.side, r.orderType, r.symbolLength] ++ (r.symbol.toList ++ r.reserved.toList)) := by
  simp only [bytes, wordBytes, List.append_assoc]

/-- The four words of a record come back from its block. -/
theorem words_ofBlock_toBlock (r : Record) :
    (ofBlock r.toBlock).id = r.id ∧ (ofBlock r.toBlock).price = r.price ∧
      (ofBlock r.toBlock).quantity = r.quantity ∧
      (ofBlock r.toBlock).timestamp = r.timestamp := by
  have hid : wordAt r.toBlock Layout.id 4 = r.id.toNat % 256 ^ 4 :=
    wordAt_toBlock []
      (by simp only [bytes, List.append_assoc, List.nil_append]; rfl) rfl
  have hprice : wordAt r.toBlock Layout.price 8 = r.price.bits.toNat % 256 ^ 8 :=
    wordAt_toBlock (littleEndian 4 r.id.toNat)
      (by simp only [bytes, List.append_assoc]; rfl) (by simp [Layout.price])
  have hquantity : wordAt r.toBlock Layout.quantity 4 = r.quantity.toUInt32.toNat % 256 ^ 4 :=
    wordAt_toBlock (littleEndian 4 r.id.toNat ++ littleEndian 8 r.price.bits.toNat)
      (by simp only [bytes, List.append_assoc]; rfl) (by simp [Layout.quantity])
  have htimestamp : wordAt r.toBlock Layout.timestamp 8 = r.timestamp.toUInt64.toNat % 256 ^ 8 :=
    wordAt_toBlock (littleEndian 4 r.id.toNat ++ littleEndian 8 r.price.bits.toNat ++
      littleEndian 4 r.quantity.toUInt32.toNat)
      (by simp only [bytes, List.append_assoc]; rfl) (by simp [Layout.timestamp])
  have h32 (n : UInt32) : UInt32.ofNat (n.toNat % 256 ^ 4) = n := by
    rw [Nat.mod_eq_of_lt (by simpa using n.toNat_lt), UInt32.ofNat_toNat]
  have h64 (n : UInt64) : UInt64.ofNat (n.toNat % 256 ^ 8) = n := by
    rw [Nat.mod_eq_of_lt (by simpa using n.toNat_lt), UInt64.ofNat_toNat]
  simp only [ofBlock, hid, hprice, hquantity, htimestamp, h32, h64]
  simp

/-- A record comes back from its block, unused bytes included. -/
theorem ofBlock_toBlock (r : Record) : ofBlock r.toBlock = r := by
  have hbytes := r.bytes_eq_wordBytes_append
  obtain ⟨hid, hprice, hquantity, htimestamp⟩ := r.words_ofBlock_toBlock
  have hside : (ofBlock r.toBlock).side = r.side :=
    get_toBlock r.wordBytes (by rw [hbytes]; rfl) r.length_wordBytes _
  have htype : (ofBlock r.toBlock).orderType = r.orderType :=
    get_toBlock (r.wordBytes ++ [r.side]) (by rw [hbytes]; simp; rfl)
      (by simp [length_wordBytes, Layout.orderType]) _
  have hlength : (ofBlock r.toBlock).symbolLength = r.symbolLength :=
    get_toBlock (r.wordBytes ++ [r.side, r.orderType]) (by rw [hbytes]; simp; rfl)
      (by simp [length_wordBytes, Layout.symbolLength]) _
  have hsymbol : (ofBlock r.toBlock).symbol = r.symbol := by
    apply Vector.toList_inj.mp
    refine toList_extract_toBlock (r.wordBytes ++ [r.side, r.orderType, r.symbolLength])
      r.reserved.toList (by rw [hbytes]; simp) ?_ (by simp; decide)
    simp [length_wordBytes, Layout.symbol]
  have hreserved : (ofBlock r.toBlock).reserved = r.reserved := by
    apply Vector.toList_inj.mp
    refine toList_extract_toBlock
      (r.wordBytes ++ [r.side, r.orderType, r.symbolLength] ++ r.symbol.toList) []
      (by rw [hbytes]; simp) ?_ (by simp; decide)
    simp only [List.length_append, length_wordBytes, Vector.length_toList]
    rfl
  cases hr : ofBlock r.toBlock with
  | mk id price quantity timestamp side orderType symbolLength symbol reserved =>
    rw [hr] at hid hprice hquantity htimestamp hside htype hlength hsymbol hreserved
    subst hid hprice hquantity htimestamp hside htype hlength hsymbol hreserved
    rfl

/-- The symbol bytes of an order's record are those of its cut symbol, without
the padding. -/
theorem symbolBytes?_ofOrder (o : Order) :
    (ofOrder o).symbolBytes? = some (truncateSymbol o.symbol).toByteArray.data.toList := by
  have hle := utf8ByteSize_truncateSymbol_le o.symbol
  have hsize : (truncateSymbol o.symbol).toByteArray.data.size =
      (truncateSymbol o.symbol).utf8ByteSize := rfl
  have hlength : (ofOrder o).symbolLength.toNat = (truncateSymbol o.symbol).utf8ByteSize := by
    simp only [ofOrder, UInt8.toNat_ofNat', symbolCapacity] at hle ⊢
    omega
  rw [symbolBytes?, hlength, if_pos hle]
  congr 1
  apply List.ext_getElem
  · rw [List.length_take, Vector.length_toList, Array.length_toList, hsize]
    omega
  · intro i h₁ h₂
    rw [Array.length_toList] at h₂
    simp only [ofOrder, List.getElem_take, Vector.getElem_toList, Vector.getElem_ofFn,
      Array.getD_eq_getD_getElem?, Array.getElem?_eq_getElem h₂, Option.getD_some,
      Array.getElem_toList]

/-- The record of an order holds the order as it is stored. -/
theorem toOrder_ofOrder (o : Order) : (ofOrder o).toOrder = .ok o.stored := by
  have hside : Side.ofCode? (ofOrder o).side = some o.side :=
    Side.ofCode?_eq_some_iff.mpr rfl
  have htype : OrderType.ofCode? (ofOrder o).orderType = some o.orderType :=
    OrderType.ofCode?_eq_some_iff.mpr rfl
  have hsymbol : String.fromUTF8? ⟨(truncateSymbol o.symbol).toByteArray.data.toList.toArray⟩ =
      some (truncateSymbol o.symbol) := by
    rw [Array.toArray_toList]
    exact dif_pos (truncateSymbol o.symbol).isValidUTF8
  simp only [toOrder, hside, htype, symbolBytes?_ofOrder, hsymbol]
  rfl

end Record

/-- An order comes back from its block as it is stored. -/
theorem decodeBlock_encode (o : Order) : decodeBlock (encode o) = .ok o.stored := by
  rw [decodeBlock, encode, Record.ofBlock_toBlock, Record.toOrder_ofOrder]

end OrderStore
