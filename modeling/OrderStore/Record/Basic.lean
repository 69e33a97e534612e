import OrderStore.Binary64.Basic
import OrderStore.Record.LittleEndian
import OrderStore.Symbol

/-!
# The 64-byte record

A record holds one order at fixed byte offsets, so that the record number `i`
of a buffer starts at byte `64 * i`. Every block of 64 bytes can be viewed as a
record, and every record has its block.
-/

namespace OrderStore

/-- How many bytes one record takes. -/
def recordSize : Nat := 64

/-- The raw bytes of one record. -/
abbrev Block := Vector UInt8 recordSize

/-! ## Where each field starts -/

namespace Layout

/-- Offset of the order number. -/
def id : Nat := 0
/-- Offset of the price bits. -/
def price : Nat := 4
/-- Offset of the quantity. -/
def quantity : Nat := 12
/-- Offset of the creation time. -/
def timestamp : Nat := 16
/-- Offset of the side byte. -/
def side : Nat := 24
/-- Offset of the order type byte. -/
def orderType : Nat := 25
/-- Offset of the byte that counts the symbol's bytes. -/
def symbolLength : Nat := 26
/-- Offset of the symbol field. -/
def symbol : Nat := 27
/-- Offset of the bytes that no field uses. -/
def reserved : Nat := 58

end Layout

/-- The fields of a record. The side, the order type and the symbol length are
raw bytes: nothing says yet that they stand for anything. -/
structure Record where
  /-- Order number. -/
  id : UInt32
  /-- Price, bit for bit. -/
  price : Binary64
  /-- Quantity. -/
  quantity : Int32
  /-- Creation time. -/
  timestamp : Int64
  /-- Byte that should stand for a side. -/
  side : UInt8
  /-- Byte that should stand for an order type. -/
  orderType : UInt8
  /-- How many bytes of the symbol field are the symbol. -/
  symbolLength : UInt8
  /-- Symbol bytes and the padding after them. -/
  symbol : Vector UInt8 symbolCapacity
  /-- Unused bytes. -/
  reserved : Vector UInt8 6
deriving DecidableEq

namespace Record

/-- The bytes of a record in order. -/
def bytes (r : Record) : List UInt8 :=
  littleEndian 4 r.id.toNat ++ littleEndian 8 r.price.bits.toNat ++
    littleEndian 4 r.quantity.toUInt32.toNat ++ littleEndian 8 r.timestamp.toUInt64.toNat ++
    [r.side, r.orderType, r.symbolLength] ++ r.symbol.toList ++ r.reserved.toList

@[simp] theorem length_bytes (r : Record) : r.bytes.length = recordSize := by
  simp only [bytes, List.length_append, length_littleEndian, Vector.length_toList,
    List.length_cons, List.length_nil]
  rfl

/-- The block that holds a record. -/
def toBlock (r : Record) : Block := ⟨r.bytes.toArray, by simp⟩

/-- The number held by the `width` bytes from `offset` on. -/
def wordAt (b : Block) (offset width : Nat) : Nat :=
  ofLittleEndian (b.extract offset (offset + width)).toList

/-- The record that a block holds. -/
def ofBlock (b : Block) : Record where
  id := UInt32.ofNat (wordAt b Layout.id 4)
  price := ⟨UInt64.ofNat (wordAt b Layout.price 8)⟩
  quantity := (UInt32.ofNat (wordAt b Layout.quantity 4)).toInt32
  timestamp := (UInt64.ofNat (wordAt b Layout.timestamp 8)).toInt64
  side := b.get ⟨Layout.side, by decide⟩
  orderType := b.get ⟨Layout.orderType, by decide⟩
  symbolLength := b.get ⟨Layout.symbolLength, by decide⟩
  symbol := (b.extract Layout.symbol Layout.reserved).cast (by decide)
  reserved := (b.extract Layout.reserved recordSize).cast (by decide)

/-- The symbol's bytes without their padding, unless the length byte claims
more than the field holds. -/
def symbolBytes? (r : Record) : Option (List UInt8) :=
  if r.symbolLength.toNat ≤ symbolCapacity then
    some (r.symbol.toList.take r.symbolLength.toNat)
  else none

end Record

end OrderStore
