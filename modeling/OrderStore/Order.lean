import OrderStore.Binary64.Basic

/-!
# Orders

The value that the stores keep. Nothing about an order is checked: the codec
stores whatever price, quantity and symbol it is given.
-/

namespace OrderStore

/-- The side of the book an order is on. -/
inductive Side where
  | buy
  | sell
deriving DecidableEq

namespace Side

/-- The byte that stands for a side in a record. -/
def code : Side → UInt8
  | buy => 1
  | sell => 2

/-- The side that a byte stands for. -/
def ofCode? (byte : UInt8) : Option Side :=
  if byte = 1 then some buy else if byte = 2 then some sell else none

/-- Whether this is the bid side. -/
def isBuy : Side → Bool
  | buy => true
  | sell => false

end Side

/-- How an order wants to be executed: at once at the best price, or resting at
its own price or better. -/
inductive OrderType where
  | market
  | limit
deriving DecidableEq

namespace OrderType

/-- The byte that stands for an order type in a record. -/
def code : OrderType → UInt8
  | market => 1
  | limit => 2

/-- The order type that a byte stands for. -/
def ofCode? (byte : UInt8) : Option OrderType :=
  if byte = 1 then some market else if byte = 2 then some limit else none

end OrderType

/-- A trade order. Its default is an empty limit order to buy. -/
structure Order where
  /-- Number of the order. -/
  id : UInt32 := 0
  /-- Traded instrument, of any length. -/
  symbol : String := ""
  /-- Limit price, kept bit for bit. -/
  price : Binary64 := .zero
  /-- Ordered quantity. -/
  quantity : Int32 := 0
  /-- Buy or sell. -/
  side : Side := .buy
  /-- Market or limit. -/
  orderType : OrderType := .limit
  /-- Creation time. -/
  timestamp : Int64 := 0
deriving DecidableEq

namespace Order

/-- Whether two orders agree, prices being compared as numbers: an order whose
price is not a number differs from itself, and a negative zero equals a
positive one. -/
def equals (a b : Order) : Bool :=
  a.id == b.id && a.symbol == b.symbol && a.price.equals b.price &&
    a.quantity == b.quantity && a.side == b.side && a.orderType == b.orderType &&
    a.timestamp == b.timestamp

/-- Whether this is an order to buy. -/
def isBuy (o : Order) : Bool := o.side.isBuy

end Order

end OrderStore
