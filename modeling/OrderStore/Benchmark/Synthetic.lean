import OrderStore.Binary64.Decimal
import OrderStore.Order

/-!
# Synthetic orders

Every field of a synthetic order follows from its number, so that a reader can
tell whether what it decoded is a record as written or a mixture of several.
-/

namespace OrderStore

/-- The synthetic order with number `id`. -/
def syntheticOrder (id : UInt32) : Order :=
  let n := id.toNat
  { id
    symbol := "SYM" ++ zeroPadded 3 (toString (n % 500))
    price := .ofMagnitude (.ofRatio (400 + n % 1000) 4)
    quantity := Int32.ofNat (n % 900 + 1)
    side := if n % 2 = 0 then .buy else .sell
    orderType := if n % 5 = 0 then .market else .limit
    timestamp := Int64.ofNat (1700000000000 + n) }

/-- Whether an order is not the synthetic one of its number. -/
def Order.isCorrupt (o : Order) : Bool := !o.equals (syntheticOrder o.id)

end OrderStore
