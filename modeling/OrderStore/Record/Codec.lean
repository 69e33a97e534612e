import OrderStore.Order
import OrderStore.Record.Basic

/-!
# Orders as records

Encoding never fails: a symbol that is too long is cut. Decoding checks one
thing after the other and names the first fault it meets.
-/

namespace OrderStore

/-- Why bytes are not the record of an order. -/
inductive CodecError where
  /-- Less than one record is left at the offset. -/
  | bufferTooSmall (offset available : Nat)
  /-- The side byte stands for no side. -/
  | invalidSide (byte : UInt8)
  /-- The order type byte stands for no order type. -/
  | invalidOrderType (byte : UInt8)
  /-- The length byte claims more than the symbol field holds. -/
  | symbolTooLong (length : UInt8)
  /-- The symbol's bytes are not UTF-8. -/
  | invalidSymbol
deriving DecidableEq

namespace CodecError

/-- A byte as two hexadecimal digits behind "0x". -/
def hexByte (byte : UInt8) : String :=
  "0x" ++ String.ofList [Nat.digitChar (byte.toNat / 16), Nat.digitChar (byte.toNat % 16)]

/-- The fault in words. -/
def message : CodecError → String
  | bufferTooSmall offset available =>
    s!"buffer too small: need {recordSize} bytes at offset {offset}, have {available}"
  | invalidSide byte => s!"invalid side byte {hexByte byte}"
  | invalidOrderType byte => s!"invalid order type byte {hexByte byte}"
  | symbolTooLong length =>
    s!"symbol length {length.toNat} exceeds {symbolCapacity} bytes"
  | invalidSymbol => "symbol is not valid UTF-8"

end CodecError

namespace Record

/-- The record of an order. Bytes after the symbol and the unused ones are
zero. -/
def ofOrder (o : Order) : Record :=
  let symbol := truncateSymbol o.symbol
  { id := o.id
    price := o.price
    quantity := o.quantity
    timestamp := o.timestamp
    side := o.side.code
    orderType := o.orderType.code
    symbolLength := UInt8.ofNat symbol.utf8ByteSize
    symbol := Vector.ofFn fun i => symbol.toByteArray.data.getD i 0
    reserved := Vector.replicate 6 0 }

/-- The order that a record holds, or the first thing wrong with it. -/
def toOrder (r : Record) : Except CodecError Order :=
  match Side.ofCode? r.side with
  | none => .error (.invalidSide r.side)
  | some side =>
    match OrderType.ofCode? r.orderType with
    | none => .error (.invalidOrderType r.orderType)
    | some orderType =>
      match r.symbolBytes? with
      | none => .error (.symbolTooLong r.symbolLength)
      | some bytes =>
        match String.fromUTF8? ⟨bytes.toArray⟩ with
        | none => .error .invalidSymbol
        | some symbol =>
          .ok { id := r.id, symbol, price := r.price, quantity := r.quantity, side, orderType,
                timestamp := r.timestamp }

end Record

/-- The 64 bytes of an order. -/
def encode (o : Order) : Block := (Record.ofOrder o).toBlock

/-- The order that a block holds. -/
def decodeBlock (b : Block) : Except CodecError Order := (Record.ofBlock b).toOrder

/-- The order whose record starts at byte `offset`. -/
def decode (bytes : List UInt8) (offset : Nat) : Except CodecError Order :=
  if h : offset + recordSize ≤ bytes.length then
    decodeBlock ⟨((bytes.drop offset).take recordSize).toArray, by simp; omega⟩
  else .error (.bufferTooSmall offset (bytes.length - offset))

end OrderStore
