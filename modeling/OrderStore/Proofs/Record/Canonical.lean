import OrderStore.Proofs.Record.Faithful

/-!
# Encoding undoes decoding

A block is put together again from the fields of its record. What decoding does
not look at are the bytes of the symbol's field behind the symbol, and those that
no field uses: encoding the decoded order sets them to zero and keeps every other
byte. So the blocks of orders are the blocks that can be decoded and hold zeros
there.
-/

namespace OrderStore

/-- Bytes are those of the number that they stand for. -/
theorem littleEndian_ofLittleEndian (bytes : List UInt8) :
    littleEndian bytes.length (ofLittleEndian bytes) = bytes := by
  induction bytes with
  | nil => rfl
  | cons byte bytes ih =>
    have hbyte : byte.toNat < 256 := byte.toNat_lt
    have hdiv : (byte.toNat + 256 * ofLittleEndian bytes) / 256 = ofLittleEndian bytes := by omega
    have hlow : UInt8.ofNat (byte.toNat + 256 * ofLittleEndian bytes) = byte := by
      apply UInt8.toNat_inj.mp
      rw [UInt8.toNat_ofNat']
      omega
    rw [List.length_cons, littleEndian, ofLittleEndian, hdiv, hlow, ih]

theorem ofLittleEndian_lt (bytes : List UInt8) : ofLittleEndian bytes < 256 ^ bytes.length := by
  induction bytes with
  | nil => simp [ofLittleEndian]
  | cons byte bytes ih =>
    have hbyte : byte.toNat < 256 := byte.toNat_lt
    rw [ofLittleEndian, List.length_cons, Nat.pow_succ]
    omega

namespace Record

/-! ## A block from its fields -/

theorem length_extract (b : Block) {offset width : Nat} (h : offset + width ≤ recordSize) :
    (b.extract offset (offset + width)).toList.length = width := by
  rw [Vector.length_toList]
  omega

theorem toList_extract (b : Block) (offset width : Nat) :
    (b.extract offset (offset + width)).toList = (b.toList.drop offset).take width := by
  rw [Vector.toList_extract, Nat.add_sub_cancel_left]

/-- The bytes of the word at an offset are those of the block. -/
theorem littleEndian_wordAt (b : Block) {offset width : Nat} (h : offset + width ≤ recordSize) :
    littleEndian width (wordAt b offset width) = (b.toList.drop offset).take width := by
  have hbytes := littleEndian_ofLittleEndian (b.extract offset (offset + width)).toList
  rw [length_extract b h] at hbytes
  rw [wordAt, hbytes, toList_extract]

theorem wordAt_lt (b : Block) {offset width : Nat} (h : offset + width ≤ recordSize) :
    wordAt b offset width < 256 ^ width := by
  have hlt := ofLittleEndian_lt (b.extract offset (offset + width)).toList
  rwa [length_extract b h] at hlt

/-- What comes next in a list, and what follows it. -/
theorem take_drop_append_drop (bytes : List UInt8) (offset width : Nat) :
    (bytes.drop offset).take width ++ bytes.drop (offset + width) = bytes.drop offset := by
  rw [← List.drop_drop, List.take_append_drop]

/-- The words of a block's record are its first bytes. -/
theorem wordBytes_ofBlock (b : Block) :
    (ofBlock b).wordBytes ++ b.toList.drop Layout.side = b.toList := by
  have h32 (n : Nat) (hn : n < 256 ^ 4) : n % 2 ^ 32 = n := by omega
  have h64 (n : Nat) (hn : n < 256 ^ 8) : n % 2 ^ 64 = n := by omega
  have hid : (ofBlock b).id.toNat = wordAt b Layout.id 4 := by
    simp only [ofBlock, UInt32.toNat_ofNat']
    exact h32 _ (wordAt_lt b (by decide))
  have hprice : (ofBlock b).price.bits.toNat = wordAt b Layout.price 8 := by
    simp only [ofBlock, UInt64.toNat_ofNat']
    exact h64 _ (wordAt_lt b (by decide))
  have hquantity : (ofBlock b).quantity.toUInt32.toNat = wordAt b Layout.quantity 4 := by
    simp only [ofBlock, UInt32.toUInt32_toInt32, UInt32.toNat_ofNat']
    exact h32 _ (wordAt_lt b (by decide))
  have htimestamp : (ofBlock b).timestamp.toUInt64.toNat = wordAt b Layout.timestamp 8 := by
    simp only [ofBlock, UInt64.toUInt64_toInt64, UInt64.toNat_ofNat']
    exact h64 _ (wordAt_lt b (by decide))
  rw [wordBytes, hid, hprice, hquantity, htimestamp, littleEndian_wordAt b (by decide),
    littleEndian_wordAt b (by decide), littleEndian_wordAt b (by decide),
    littleEndian_wordAt b (by decide)]
  simp only [List.append_assoc]
  calc _ = (b.toList.drop 0).take 4 ++ ((b.toList.drop 4).take 8 ++
        ((b.toList.drop 12).take 4 ++ b.toList.drop 16)) := by
        rw [← take_drop_append_drop b.toList 16 8]
        rfl
    _ = (b.toList.drop 0).take 4 ++ ((b.toList.drop 4).take 8 ++ b.toList.drop 12) := by
        rw [take_drop_append_drop b.toList 12 4]
    _ = (b.toList.drop 0).take 4 ++ b.toList.drop 4 := by
        rw [take_drop_append_drop b.toList 4 8]
    _ = b.toList := take_drop_append_drop b.toList 0 4

/-- A byte of the block, and what follows it. -/
theorem get_cons_drop (b : Block) (offset : Nat) (h : offset < recordSize) :
    b.get ⟨offset, h⟩ :: b.toList.drop (offset + 1) = b.toList.drop offset := by
  have hlength : offset < b.toList.length := by rwa [Vector.length_toList]
  rw [List.drop_eq_getElem_cons hlength, Vector.getElem_toList]
  rfl

/-- The fields of a block's record are its bytes. -/
theorem bytes_ofBlock (b : Block) : (ofBlock b).bytes = b.toList := by
  have hsymbol : (ofBlock b).symbol.toList = (b.toList.drop Layout.symbol).take symbolCapacity :=
    toList_extract b Layout.symbol symbolCapacity
  have hreserved : (ofBlock b).reserved.toList = b.toList.drop Layout.reserved := by
    have hlast : (ofBlock b).reserved.toList = (b.toList.drop Layout.reserved).take 6 :=
      toList_extract b Layout.reserved 6
    rw [hlast, List.take_of_length_le]
    rw [List.length_drop, Vector.length_toList]
    decide
  have hend : (ofBlock b).symbol.toList ++ (ofBlock b).reserved.toList =
      b.toList.drop Layout.symbol := by
    rw [hsymbol, hreserved]
    exact take_drop_append_drop b.toList Layout.symbol symbolCapacity
  have hcodes : [(ofBlock b).side, (ofBlock b).orderType, (ofBlock b).symbolLength] ++
      b.toList.drop Layout.symbol = b.toList.drop Layout.side := by
    calc _ = b.get ⟨24, by decide⟩ :: b.get ⟨25, by decide⟩ :: b.toList.drop 26 :=
          congrArg (_ :: _ :: ·) (get_cons_drop b 26 (by decide))
      _ = b.get ⟨24, by decide⟩ :: b.toList.drop 25 :=
          congrArg (_ :: ·) (get_cons_drop b 25 (by decide))
      _ = b.toList.drop 24 := get_cons_drop b 24 (by decide)
  rw [bytes_eq_wordBytes_append, hend, hcodes, wordBytes_ofBlock]

/-- Every block is that of its record. -/
theorem toBlock_ofBlock (b : Block) : (ofBlock b).toBlock = b := by
  apply Vector.toList_inj.mp
  rw [toList_toBlock, bytes_ofBlock]

end Record

/-! ## Padding -/

namespace Block

/-- Whether a byte of a block is padding: it stands behind the symbol in the symbol's
field, or no field uses it. -/
def IsPadding (b : Block) (i : Nat) : Prop :=
  Layout.symbol + (Record.ofBlock b).symbolLength.toNat ≤ i ∧ i < Layout.reserved ∨
    Layout.reserved ≤ i

instance (b : Block) (i : Nat) : Decidable (IsPadding b i) :=
  inferInstanceAs (Decidable (_ ∧ _ ∨ _))

/-- The block with zeros for its padding. -/
def clearPadding (b : Block) : Block :=
  Vector.ofFn fun i => if IsPadding b i then 0 else b[i]

/-- The padding holds zeros. -/
def ZeroPadded (b : Block) : Prop :=
  ∀ i (_ : i < recordSize), IsPadding b i → b[i] = 0

instance (b : Block) : Decidable (ZeroPadded b) :=
  inferInstanceAs (Decidable (∀ i (_ : i < recordSize), IsPadding b i → b[i] = 0))

theorem clearPadding_eq_self_iff (b : Block) : clearPadding b = b ↔ ZeroPadded b := by
  constructor
  · intro hsame i hi hpad
    have hbyte : (clearPadding b)[i] = 0 := by
      rw [clearPadding, Vector.getElem_ofFn, if_pos hpad]
    rwa [hsame] at hbyte
  · intro hzero
    apply Vector.ext
    intro i hi
    rw [clearPadding, Vector.getElem_ofFn]
    split
    · next hpad => exact (hzero i hi hpad).symm
    · rfl

end Block

namespace Record

/-- The record with zeros behind the symbol and for the unused bytes. -/
def clearPadding (r : Record) : Record :=
  { r with
    symbol := Vector.ofFn fun i => if i < r.symbolLength.toNat then r.symbol.get i else 0
    reserved := Vector.replicate 6 0 }

/-- The bytes of a record in front of its symbol. -/
def fixedBytes (r : Record) : List UInt8 := r.wordBytes ++ [r.side, r.orderType, r.symbolLength]

theorem length_fixedBytes (r : Record) : r.fixedBytes.length = Layout.symbol := by
  simp [fixedBytes, length_wordBytes, Layout.symbol]

theorem bytes_eq_fixedBytes_append (r : Record) :
    r.bytes = r.fixedBytes ++ (r.symbol.toList ++ r.reserved.toList) := by
  rw [bytes_eq_wordBytes_append, fixedBytes, List.append_assoc]

theorem getElem?_bytes_eq (r : Record) {i : Nat} (hi : i < recordSize) :
    r.bytes[i]? = some r.toBlock[i] := by
  rw [← toList_toBlock, List.getElem?_eq_getElem (by rwa [Vector.length_toList]),
    Vector.getElem_toList]

/-- Where a byte of a record's block stands in the record. -/
theorem getElem?_bytes (r : Record) (i : Nat) :
    r.bytes[i]? = if i < Layout.symbol then r.fixedBytes[i]?
      else if i < Layout.reserved then r.symbol.toList[i - Layout.symbol]?
      else r.reserved.toList[i - Layout.reserved]? := by
  have hfixed := r.length_fixedBytes
  have hsymbol : r.symbol.toList.length = Layout.reserved - Layout.symbol := Vector.length_toList ..
  have hle : Layout.symbol ≤ Layout.reserved := by decide
  rw [bytes_eq_fixedBytes_append]
  split
  · rw [List.getElem?_append_left (by omega)]
  · split
    · rw [List.getElem?_append_right (by omega), List.getElem?_append_left (by omega), hfixed]
    · rw [List.getElem?_append_right (by omega), List.getElem?_append_right (by omega), hfixed,
        hsymbol]
      congr 1

theorem isPadding_toBlock_iff (r : Record) (i : Nat) : Block.IsPadding r.toBlock i ↔
    Layout.symbol + r.symbolLength.toNat ≤ i ∧ i < Layout.reserved ∨ Layout.reserved ≤ i := by
  rw [Block.IsPadding, ofBlock_toBlock]

theorem getElem?_symbol_clearPadding (r : Record) {i : Nat} (hi : i < symbolCapacity) :
    r.clearPadding.symbol.toList[i]? =
      if i < r.symbolLength.toNat then r.symbol.toList[i]? else some 0 := by
  have hlength {v : Vector UInt8 symbolCapacity} : i < v.toList.length := by
    rwa [Vector.length_toList]
  rw [List.getElem?_eq_getElem hlength, List.getElem?_eq_getElem hlength, Vector.getElem_toList,
    Vector.getElem_toList, clearPadding, Vector.getElem_ofFn]
  split <;> rfl

theorem getElem?_reserved_clearPadding (r : Record) {i : Nat} (hi : i < 6) :
    r.clearPadding.reserved.toList[i]? = some 0 := by
  rw [clearPadding, Vector.toList_replicate, List.getElem?_replicate, if_pos hi]

theorem fixedBytes_clearPadding (r : Record) : r.clearPadding.fixedBytes = r.fixedBytes := by
  simp only [fixedBytes, wordBytes, clearPadding]

/-- The bytes of a record whose padding has been cleared. -/
theorem getElem?_bytes_clearPadding (r : Record) {i : Nat} (hi : i < recordSize) :
    r.clearPadding.bytes[i]? =
      if Layout.symbol + r.symbolLength.toNat ≤ i ∧ i < Layout.reserved ∨ Layout.reserved ≤ i then
        some 0
      else r.bytes[i]? := by
  have hfield : Layout.symbol + symbolCapacity = Layout.reserved := rfl
  have hsize : Layout.reserved + 6 = recordSize := rfl
  rw [getElem?_bytes, getElem?_bytes, fixedBytes_clearPadding]
  by_cases hfront : i < Layout.symbol
  · rw [if_pos hfront, if_pos hfront, if_neg (by omega)]
  · rw [if_neg hfront, if_neg hfront]
    by_cases hsymbol : i < Layout.reserved
    · rw [if_pos hsymbol, if_pos hsymbol, getElem?_symbol_clearPadding r (by omega)]
      by_cases hkept : i - Layout.symbol < r.symbolLength.toNat
      · rw [if_pos hkept, if_neg (by omega)]
      · rw [if_neg hkept, if_pos (by omega)]
    · rw [if_neg hsymbol, getElem?_reserved_clearPadding r (by omega), if_pos (by omega)]

/-- Clearing the padding of a record clears that of its block. -/
theorem toBlock_clearPadding (r : Record) :
    r.clearPadding.toBlock = Block.clearPadding r.toBlock := by
  apply Vector.ext
  intro i hi
  have hcleared := r.getElem?_bytes_clearPadding hi
  rw [getElem?_bytes_eq _ hi, getElem?_bytes_eq _ hi] at hcleared
  rw [Block.clearPadding, Vector.getElem_ofFn, Fin.getElem_fin]
  by_cases hpad : Block.IsPadding r.toBlock i
  · rw [if_pos ((r.isPadding_toBlock_iff i).mp hpad)] at hcleared
    rw [if_pos hpad]
    exact Option.some.inj hcleared
  · rw [if_neg (mt (r.isPadding_toBlock_iff i).mpr hpad)] at hcleared
    rw [if_neg hpad]
    exact Option.some.inj hcleared

end Record

/-! ## What decoding takes from a record -/

/-- A text read from bytes has these bytes. -/
theorem toByteArray_of_fromUTF8? {bytes : ByteArray} {s : String}
    (h : String.fromUTF8? bytes = some s) : s.toByteArray = bytes := by
  unfold String.fromUTF8? at h
  split at h
  · cases h
    rfl
  · cases h

namespace Record

/-- What an order takes from its record. -/
structure Holds (r : Record) (o : Order) : Prop where
  /-- The number is the same. -/
  id_eq : r.id = o.id
  /-- The price has the same bits. -/
  price_eq : r.price = o.price
  /-- The quantity is the same. -/
  quantity_eq : r.quantity = o.quantity
  /-- The creation time is the same. -/
  timestamp_eq : r.timestamp = o.timestamp
  /-- The side byte stands for the side. -/
  side_eq : r.side = o.side.code
  /-- The order type byte stands for the order type. -/
  orderType_eq : r.orderType = o.orderType.code
  /-- The length byte claims no more than the field holds. -/
  length_le : r.symbolLength.toNat ≤ symbolCapacity
  /-- The symbol's bytes are as many of the field's. -/
  symbol_eq : o.symbol.toByteArray.data.toList = r.symbol.toList.take r.symbolLength.toNat

theorem of_symbolBytes?_eq_some {r : Record} {bytes : List UInt8}
    (h : r.symbolBytes? = some bytes) :
    r.symbolLength.toNat ≤ symbolCapacity ∧
      bytes = r.symbol.toList.take r.symbolLength.toNat := by
  unfold symbolBytes? at h
  split at h
  · cases h
    exact ⟨by assumption, rfl⟩
  · cases h

/-- A record that can be decoded holds the order. -/
theorem holds_of_toOrder {r : Record} {o : Order} (h : r.toOrder = .ok o) : r.Holds o := by
  unfold toOrder at h
  cases hside : Side.ofCode? r.side with
  | none => simp [hside] at h
  | some side =>
    cases htype : OrderType.ofCode? r.orderType with
    | none => simp [hside, htype] at h
    | some orderType =>
      cases hbytes : r.symbolBytes? with
      | none => simp [hside, htype, hbytes] at h
      | some bytes =>
        cases hsymbol : String.fromUTF8? ⟨bytes.toArray⟩ with
        | none => simp [hside, htype, hbytes, hsymbol] at h
        | some symbol =>
          simp only [hside, htype, hbytes, hsymbol, Except.ok.injEq] at h
          subst h
          obtain ⟨hlength, hfield⟩ := of_symbolBytes?_eq_some hbytes
          have htext : symbol.toByteArray = ⟨bytes.toArray⟩ := toByteArray_of_fromUTF8? hsymbol
          refine ⟨rfl, rfl, rfl, rfl, Side.ofCode?_eq_some_iff.mp hside,
            OrderType.ofCode?_eq_some_iff.mp htype, hlength, ?_⟩
          rw [htext, hfield]

namespace Holds

variable {r : Record} {o : Order}

theorem utf8ByteSize_eq (h : r.Holds o) : o.symbol.utf8ByteSize = r.symbolLength.toNat := by
  have hlength := congrArg List.length h.symbol_eq
  have hle := h.length_le
  rw [List.length_take, Vector.length_toList, Nat.min_eq_left hle] at hlength
  exact hlength

/-- A decoded symbol is never cut. -/
theorem truncateSymbol_eq (h : r.Holds o) : truncateSymbol o.symbol = o.symbol := by
  rw [truncateSymbol_eq_self_iff, h.utf8ByteSize_eq]
  exact h.length_le

/-- What is stored of a decoded order is all of it. -/
theorem stored_eq (h : r.Holds o) : o.stored = o := by
  rw [Order.stored, h.truncateSymbol_eq]

/-- The record of a decoded order is the one it was decoded from, with its padding
cleared. -/
theorem ofOrder_eq (h : r.Holds o) : ofOrder o = r.clearPadding := by
  have hlength : (ofOrder o).symbolLength = r.symbolLength := by
    simp only [ofOrder, h.truncateSymbol_eq, h.utf8ByteSize_eq, UInt8.ofNat_toNat]
  have hsymbol : (ofOrder o).symbol = r.clearPadding.symbol := by
    apply Vector.ext
    intro i hi
    simp only [ofOrder, clearPadding, h.truncateSymbol_eq, Vector.getElem_ofFn]
    rw [Array.getD_eq_getD_getElem?, ← Array.getElem?_toList, h.symbol_eq, List.getElem?_take]
    split
    · rw [List.getElem?_eq_getElem (by rwa [Vector.length_toList]), Vector.getElem_toList]
      rfl
    · rfl
  calc ofOrder o = { r with
        symbolLength := (ofOrder o).symbolLength
        symbol := (ofOrder o).symbol
        reserved := Vector.replicate 6 0 } := by
        rw [h.id_eq, h.price_eq, h.quantity_eq, h.timestamp_eq, h.side_eq, h.orderType_eq]
        rfl
    _ = r.clearPadding := by
        rw [hlength, hsymbol]
        rfl

end Holds

end Record

theorem decode_toList (b : Block) : decode b.toList 0 = decodeBlock b := by
  have happend := decode_append [] b []
  rwa [List.nil_append, List.append_nil] at happend

/-- The record of a decoded block holds the order. -/
theorem holds_of_decode {b : Block} {o : Order} (h : decode b.toList 0 = .ok o) :
    (Record.ofBlock b).Holds o := by
  rw [decode_toList] at h
  exact Record.holds_of_toOrder h

/-- Encoding a decoded order clears the padding of its block. -/
theorem encode_of_decode {b : Block} {o : Order} (h : decode b.toList 0 = .ok o) :
    encode o = Block.clearPadding b := by
  rw [encode, (holds_of_decode h).ofOrder_eq, Record.toBlock_clearPadding, Record.toBlock_ofBlock]

/-- Encoding undoes decoding up to padding. If a block can be decoded, encoding the order
gives the block with zeros for its padding and every other byte as it was, which is the
block itself exactly if that held zeros there, and decoding this gives the same order
again, the price bit for bit. The blocks of orders are exactly the blocks that can be
decoded and hold zeros as padding. -/
theorem encode_undoes_decode :
    (∀ (b : Block) (o : Order), decode b.toList 0 = .ok o →
      encode o = Block.clearPadding b ∧ (encode o = b ↔ Block.ZeroPadded b) ∧
        decode (encode o).toList 0 = .ok o) ∧
      ∀ b : Block, (∃ o, encode o = b) ↔
        (∃ o, decode b.toList 0 = .ok o) ∧ Block.ZeroPadded b := by
  constructor
  · intro b o hdecode
    have hencode := encode_of_decode hdecode
    refine ⟨hencode, ?_, ?_⟩
    · rw [hencode, Block.clearPadding_eq_self_iff]
    · rw [decode_toList, decodeBlock_encode, (holds_of_decode hdecode).stored_eq]
  · intro b
    constructor
    · rintro ⟨o, rfl⟩
      have hdecode : decode (encode o).toList 0 = .ok o.stored := by
        rw [decode_toList, decodeBlock_encode]
      refine ⟨⟨o.stored, hdecode⟩, ?_⟩
      rw [← Block.clearPadding_eq_self_iff, ← encode_of_decode hdecode, encode_stored]
    · rintro ⟨⟨o, hdecode⟩, hzero⟩
      refine ⟨o, ?_⟩
      rw [encode_of_decode hdecode, Block.clearPadding_eq_self_iff]
      exact hzero

/-- One byte behind the symbol and one that no field uses are not zero. -/
theorem encode_undoes_decode_noisy :
    let order : Order := { id := 7, symbol := "AB" }
    let b : Block := ((encode order).set 40 9).set 63 1
    decode b.toList 0 = .ok order ∧ encode order = Block.clearPadding b ∧ encode order ≠ b ∧
      decode (encode order).toList 0 = .ok order := by
  intro order b
  have hdecode : decode b.toList 0 = .ok order := by
    have hsome : (decode b.toList 0).toOption = some order := by decide +kernel
    cases hresult : decode b.toList 0 with
    | error fault =>
      rw [hresult] at hsome
      cases hsome
    | ok decoded =>
      rw [hresult] at hsome
      exact congrArg _ (Option.some.inj hsome)
  have hnoise : ¬ Block.ZeroPadded b := by decide +kernel
  obtain ⟨hencode, hsame, hagain⟩ := encode_undoes_decode.1 b order hdecode
  exact ⟨hdecode, hencode, fun heq => hnoise (hsame.mp heq), hagain⟩

end OrderStore
