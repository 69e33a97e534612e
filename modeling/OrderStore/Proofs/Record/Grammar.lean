import OrderStore.Proofs.Record.Canonical
import OrderStore.Proofs.Utf8

/-!
# Which bytes are an order

Decoding accepts a record by five conditions, and of those that fail it reports the
first: the record has to lie within the bytes, the side byte and the order type byte
have to be one or two, the length byte has to fit the symbol's field, and as many
bytes of that field have to be well-formed UTF-8. Nothing but the 64 bytes of the
record matters to what is found in it, and of these the padding does not.
-/

namespace OrderStore

/-- Just one and two stand for something, be it a side or an order type. -/
def IsCode (byte : UInt8) : Prop := byte = 1 ∨ byte = 2

instance (byte : UInt8) : Decidable (IsCode byte) := inferInstanceAs (Decidable (_ ∨ _))

theorem Side.ofCode?_eq_none {byte : UInt8} (h : ¬ IsCode byte) : ofCode? byte = none := by
  obtain ⟨hone, htwo⟩ := not_or.mp h
  rw [ofCode?, if_neg hone, if_neg htwo]

theorem Side.exists_ofCode? {byte : UInt8} (h : IsCode byte) :
    ∃ side, ofCode? byte = some side := by
  rcases h with rfl | rfl
  · exact ⟨buy, rfl⟩
  · exact ⟨sell, rfl⟩

theorem OrderType.ofCode?_eq_none {byte : UInt8} (h : ¬ IsCode byte) : ofCode? byte = none := by
  obtain ⟨hone, htwo⟩ := not_or.mp h
  rw [ofCode?, if_neg hone, if_neg htwo]

theorem OrderType.exists_ofCode? {byte : UInt8} (h : IsCode byte) :
    ∃ orderType, ofCode? byte = some orderType := by
  rcases h with rfl | rfl
  · exact ⟨market, rfl⟩
  · exact ⟨limit, rfl⟩

namespace Record

/-- The bytes of the symbol's field that are the symbol. -/
def symbolText (r : Record) : List UInt8 := r.symbol.toList.take r.symbolLength.toNat

/-! ## The first fault -/

variable {r : Record}

theorem toOrder_of_side (hside : ¬ IsCode r.side) : r.toOrder = .error (.invalidSide r.side) := by
  simp only [toOrder, Side.ofCode?_eq_none hside]

theorem toOrder_of_orderType (hside : IsCode r.side) (htype : ¬ IsCode r.orderType) :
    r.toOrder = .error (.invalidOrderType r.orderType) := by
  obtain ⟨side, hside⟩ := Side.exists_ofCode? hside
  simp only [toOrder, hside, OrderType.ofCode?_eq_none htype]

theorem toOrder_of_length (hside : IsCode r.side) (htype : IsCode r.orderType)
    (hlength : symbolCapacity < r.symbolLength.toNat) :
    r.toOrder = .error (.symbolTooLong r.symbolLength) := by
  obtain ⟨side, hside⟩ := Side.exists_ofCode? hside
  obtain ⟨orderType, htype⟩ := OrderType.exists_ofCode? htype
  have hbytes : r.symbolBytes? = none := if_neg (by omega)
  simp only [toOrder, hside, htype, hbytes]

/-- With both codes in order and a symbol that fits its field, everything depends on
whether the symbol can be read. -/
theorem toOrder_of_symbol (hside : IsCode r.side) (htype : IsCode r.orderType)
    (hlength : r.symbolLength.toNat ≤ symbolCapacity) :
    (¬ Utf8.WellFormed r.symbolText → r.toOrder = .error .invalidSymbol) ∧
      (Utf8.WellFormed r.symbolText → ∃ o, r.toOrder = .ok o) := by
  obtain ⟨side, hside⟩ := Side.exists_ofCode? hside
  obtain ⟨orderType, htype⟩ := OrderType.exists_ofCode? htype
  have hbytes : r.symbolBytes? = some r.symbolText := if_pos hlength
  rw [← Utf8.isValidUTF8_iff]
  constructor
  · intro hinvalid
    have htext : String.fromUTF8? ⟨r.symbolText.toArray⟩ = none := dif_neg hinvalid
    simp only [toOrder, hside, htype, hbytes, htext]
  · intro hvalid
    have htext : String.fromUTF8? ⟨r.symbolText.toArray⟩ = some (.fromUTF8 _ hvalid) :=
      dif_pos hvalid
    simp only [toOrder, hside, htype, hbytes, htext]
    exact ⟨_, rfl⟩

/-- Each outcome is that of one condition, the first that fails or none. -/
theorem toOrder_outcomes (r : Record) :
    (∀ start available, r.toOrder ≠ .error (.bufferTooSmall start available)) ∧
      (∀ byte, r.toOrder = .error (.invalidSide byte) ↔ ¬ IsCode r.side ∧ byte = r.side) ∧
      (∀ byte, r.toOrder = .error (.invalidOrderType byte) ↔
        IsCode r.side ∧ ¬ IsCode r.orderType ∧ byte = r.orderType) ∧
      (∀ byte, r.toOrder = .error (.symbolTooLong byte) ↔ IsCode r.side ∧ IsCode r.orderType ∧
        symbolCapacity < r.symbolLength.toNat ∧ byte = r.symbolLength) ∧
      (r.toOrder = .error .invalidSymbol ↔ IsCode r.side ∧ IsCode r.orderType ∧
        r.symbolLength.toNat ≤ symbolCapacity ∧ ¬ Utf8.WellFormed r.symbolText) ∧
      ((∃ o, r.toOrder = .ok o) ↔ IsCode r.side ∧ IsCode r.orderType ∧
        r.symbolLength.toNat ≤ symbolCapacity ∧ Utf8.WellFormed r.symbolText) := by
  by_cases hside : IsCode r.side
  · by_cases htype : IsCode r.orderType
    · by_cases hlength : r.symbolLength.toNat ≤ symbolCapacity
      · obtain ⟨hinvalid, hvalid⟩ := toOrder_of_symbol hside htype hlength
        have hshort : ¬ symbolCapacity < r.symbolLength.toNat := by omega
        by_cases hwell : Utf8.WellFormed r.symbolText
        · obtain ⟨o, ho⟩ := hvalid hwell
          simp [ho, hside, htype, hlength, hshort, hwell]
        · simp [hinvalid hwell, hside, htype, hlength, hshort, hwell]
      · have hlong : symbolCapacity < r.symbolLength.toNat := by omega
        simp [toOrder_of_length hside htype hlong, hside, htype, hlength, hlong, eq_comm]
    · simp [toOrder_of_orderType hside htype, hside, htype, eq_comm]
  · simp [toOrder_of_side hside, hside, eq_comm]

/-- Clearing the padding of a record leaves its symbol. -/
theorem symbolBytes?_clearPadding (r : Record) : r.clearPadding.symbolBytes? = r.symbolBytes? := by
  have hcount : r.clearPadding.symbolLength = r.symbolLength := by simp only [clearPadding]
  have htext (hlength : r.symbolLength.toNat ≤ symbolCapacity) :
      r.clearPadding.symbol.toList.take r.symbolLength.toNat = r.symbolText := by
    apply List.ext_getElem?
    intro i
    rw [symbolText, List.getElem?_take, List.getElem?_take]
    split
    · next hi => rw [getElem?_symbol_clearPadding r (by omega), if_pos hi]
    · rfl
  rw [symbolBytes?, symbolBytes?, hcount]
  split
  · next hlength => rw [htext hlength, symbolText]
  · rfl

/-- Whatever the padding holds, the same order or the same fault is found. -/
theorem toOrder_clearPadding (r : Record) : r.clearPadding.toOrder = r.toOrder := by
  rw [toOrder, symbolBytes?_clearPadding, toOrder]
  simp only [clearPadding]

end Record

/-! ## The bytes at an offset -/

/-- Decoding looks at the block of bytes that starts at the offset. -/
theorem exists_block {bytes : List UInt8} {offset : Nat}
    (hfits : offset + recordSize ≤ bytes.length) :
    ∃ b : Block, decode bytes offset = decodeBlock b ∧
      ∀ i (_ : i < recordSize), bytes[offset + i]? = some b[i] := by
  have hlength : ((bytes.drop offset).take recordSize).toArray.size = recordSize := by
    rw [List.size_toArray, List.length_take, List.length_drop]
    omega
  refine ⟨⟨_, hlength⟩, dif_pos hfits, ?_⟩
  intro i hi
  have hget : ((bytes.drop offset).take recordSize)[i]? = bytes[offset + i]? := by
    rw [List.getElem?_take_of_lt hi, List.getElem?_drop]
  rw [← hget, Vector.getElem_mk, List.getElem_toArray, List.getElem?_eq_getElem]

/-- The padding of a block does not matter. -/
theorem decodeBlock_clearPadding (b : Block) :
    decodeBlock (Block.clearPadding b) = decodeBlock b := by
  have hclear : Block.clearPadding b = (Record.ofBlock b).clearPadding.toBlock := by
    rw [Record.toBlock_clearPadding, Record.toBlock_ofBlock]
  rw [hclear, decodeBlock, Record.ofBlock_toBlock, Record.toOrder_clearPadding, decodeBlock]

/-- Blocks that agree except in their padding are decoded alike. -/
theorem decodeBlock_congr {a b : Block}
    (hsame : ∀ i (_ : i < recordSize), ¬ Block.IsPadding a i → a[i] = b[i]) :
    decodeBlock a = decodeBlock b := by
  have hlength : (Record.ofBlock a).symbolLength = (Record.ofBlock b).symbolLength := by
    refine hsame 26 (by decide) fun hpad => ?_
    unfold Block.IsPadding Layout.symbol Layout.reserved at hpad
    omega
  have hpadding (i : Nat) : Block.IsPadding a i ↔ Block.IsPadding b i := by
    unfold Block.IsPadding
    rw [hlength]
  have hclear : Block.clearPadding a = Block.clearPadding b := by
    apply Vector.ext
    intro i hi
    simp only [Block.clearPadding, Vector.getElem_ofFn, Fin.getElem_fin]
    by_cases hpad : Block.IsPadding a i
    · rw [if_pos hpad, if_pos ((hpadding i).mp hpad)]
    · rw [if_neg hpad, if_neg (mt (hpadding i).mpr hpad), hsame i hi hpad]
  rw [← decodeBlock_clearPadding a, hclear, decodeBlock_clearPadding]

/-- The symbol of a block, among the bytes that the block was taken from. -/
theorem symbolText_ofBlock {bytes : List UInt8} {offset : Nat} {b : Block}
    (hbytes : ∀ i (_ : i < recordSize), bytes[offset + i]? = some b[i])
    (hlength : (Record.ofBlock b).symbolLength.toNat ≤ symbolCapacity) :
    (Record.ofBlock b).symbolText =
      (bytes.drop (offset + Layout.symbol)).take (Record.ofBlock b).symbolLength.toNat := by
  have hfield : (Record.ofBlock b).symbol.toList = (b.toList.drop Layout.symbol).take symbolCapacity :=
    Record.toList_extract b Layout.symbol symbolCapacity
  have hroom : Layout.symbol + symbolCapacity ≤ recordSize := by decide
  apply List.ext_getElem?
  intro i
  rw [Record.symbolText, hfield, List.take_take, Nat.min_eq_left hlength, List.getElem?_take,
    List.getElem?_take]
  split
  · next hi =>
    have hlt : Layout.symbol + i < recordSize := by omega
    rw [List.getElem?_drop, List.getElem?_drop, Nat.add_assoc, hbytes _ hlt,
      List.getElem?_eq_getElem (by rwa [Vector.length_toList]), Vector.getElem_toList]
  · rfl

/-- The bytes of the block are those from the offset on. -/
theorem getElem_of_block {bytes : List UInt8} {offset : Nat} {b : Block}
    (hbytes : ∀ i (_ : i < recordSize), bytes[offset + i]? = some b[i]) {i : Nat}
    (hi : i < recordSize) (hlt : offset + i < bytes.length) : bytes[offset + i] = b[i] := by
  have hget := hbytes i hi
  rwa [List.getElem?_eq_getElem hlt, Option.some.injEq] at hget

/-- Records that agree except in their padding are decoded alike, wherever they are. -/
theorem decode_congr {bytes others : List UInt8} {offset place : Nat}
    (hfits : offset + 64 ≤ bytes.length) (hplace : place + 64 ≤ others.length)
    (hsame : ∀ i < 64, ¬ (27 + bytes[offset + 26].toNat ≤ i ∧ i < 58 ∨ 58 ≤ i) →
      others[place + i]? = bytes[offset + i]?) :
    decode others place = decode bytes offset := by
  obtain ⟨b, hdecode, hbytes⟩ := exists_block hfits
  obtain ⟨b', hdecode', hbytes'⟩ := exists_block hplace
  have hlength : bytes[offset + 26] = (Record.ofBlock b).symbolLength :=
    getElem_of_block hbytes (by decide) _
  rw [hlength] at hsame
  rw [hdecode, hdecode']
  refine (decodeBlock_congr fun i hi hpad => ?_).symm
  have hboth := hsame i hi hpad
  rw [hbytes i hi, hbytes' i hi] at hboth
  exact (Option.some.inj hboth).symm

/-- Decoding accepts exactly the bytes of an order, and otherwise reports the first
fault: a record that does not lie within the bytes, a byte that stands for no side, one
that stands for no order type, a symbol longer than its field, or one that is not
well-formed. Of bytes among which the record lies, only those of the record matter, and
of these neither those behind the symbol in its field nor the last six. -/
theorem decode_first_fault (bytes : List UInt8) (offset : Nat) :
    (∀ start available, decode bytes offset = .error (.bufferTooSmall start available) ↔
      bytes.length < offset + 64 ∧ start = offset ∧ available = bytes.length - offset) ∧
    ∀ _ : offset + 64 ≤ bytes.length,
      let side := bytes[offset + 24]
      let orderType := bytes[offset + 25]
      let length := bytes[offset + 26]
      let symbol := (bytes.drop (offset + 27)).take length.toNat
      (∀ byte, decode bytes offset = .error (.invalidSide byte) ↔ ¬ IsCode side ∧ byte = side) ∧
      (∀ byte, decode bytes offset = .error (.invalidOrderType byte) ↔
        IsCode side ∧ ¬ IsCode orderType ∧ byte = orderType) ∧
      (∀ byte, decode bytes offset = .error (.symbolTooLong byte) ↔
        IsCode side ∧ IsCode orderType ∧ 31 < length.toNat ∧ byte = length) ∧
      (decode bytes offset = .error .invalidSymbol ↔
        IsCode side ∧ IsCode orderType ∧ length.toNat ≤ 31 ∧ ¬ Utf8.WellFormed symbol) ∧
      ((∃ o, decode bytes offset = .ok o) ↔
        IsCode side ∧ IsCode orderType ∧ length.toNat ≤ 31 ∧ Utf8.WellFormed symbol) ∧
      ∀ (others : List UInt8) (place : Nat), place + 64 ≤ others.length →
        (∀ i < 64, ¬ (27 + length.toNat ≤ i ∧ i < 58 ∨ 58 ≤ i) →
          others[place + i]? = bytes[offset + i]?) →
        decode others place = decode bytes offset := by
  by_cases hfits : offset + 64 ≤ bytes.length
  · obtain ⟨b, hdecode, hbytes⟩ := exists_block hfits
    obtain ⟨hfound, hcodes, htypes, hlengths, hsymbols, horders⟩ :=
      (Record.ofBlock b).toOrder_outcomes
    rw [hdecode, decodeBlock]
    constructor
    · intro start available
      have hsize : ¬ bytes.length < offset + 64 := by omega
      simp [hfound, hsize]
    · intro _ side orderType length symbol
      have hside : side = (Record.ofBlock b).side := getElem_of_block hbytes (by decide) _
      have htype : orderType = (Record.ofBlock b).orderType :=
        getElem_of_block hbytes (by decide) _
      have hlength : length = (Record.ofBlock b).symbolLength :=
        getElem_of_block hbytes (by decide) _
      have hsymbol (hshort : (Record.ofBlock b).symbolLength.toNat ≤ symbolCapacity) :
          symbol = (Record.ofBlock b).symbolText := by
        rw [symbolText_ofBlock hbytes hshort, ← hlength]
        rfl
      rw [hside, htype, hlength]
      refine ⟨hcodes, htypes, hlengths, ?_, ?_, ?_⟩
      · refine hsymbols.trans (and_congr_right fun _ => and_congr_right fun _ => ?_)
        exact and_congr_right fun hshort => by rw [hsymbol hshort]
      · refine horders.trans (and_congr_right fun _ => and_congr_right fun _ => ?_)
        exact and_congr_right fun hshort => by rw [hsymbol hshort]
      · intro others place hplace hsame
        rw [← hlength] at hsame
        exact (decode_congr hfits hplace hsame).trans hdecode
  · have hshort : bytes.length < offset + 64 := by omega
    have hdecode : decode bytes offset = .error (.bufferTooSmall offset (bytes.length - offset)) :=
      dif_neg hfits
    constructor
    · intro start available
      simp [hdecode, hshort, eq_comm]
    · intro hlong
      omega

/-- A symbol of three bytes that would be a surrogate, behind two other bytes. -/
theorem decode_first_fault_surrogate :
    let b : Block := (((encode { id := 7, symbol := "ABC" }).set 27 0xED).set 28 0xA0).set 29 0x80
    let bytes := [1, 2] ++ b.toList
    2 + 64 ≤ bytes.length ∧ decode bytes 2 = .error .invalidSymbol := by
  intro b bytes
  have hfits : 2 + 64 ≤ bytes.length := by decide +kernel
  have hcodes : IsCode bytes[2 + 24] ∧ IsCode bytes[2 + 25] ∧ bytes[2 + 26].toNat ≤ 31 := by
    decide +kernel +revert
  have hsymbol : ¬ Utf8.WellFormed ((bytes.drop (2 + 27)).take bytes[2 + 26].toNat) := by
    decide +kernel +revert
  obtain ⟨hside, htype, hlength⟩ := hcodes
  obtain ⟨-, -, -, hinvalid, -⟩ := (decode_first_fault bytes 2).2 hfits
  exact ⟨hfits, hinvalid.mpr ⟨hside, htype, hlength, hsymbol⟩⟩

end OrderStore
