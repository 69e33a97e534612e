import OrderStore.Benchmark.Workload

/-!
# Auditing a store

After a stress of synthetic orders from several writers, an audit reads every
slot and sees whether each order is one that was written, and none is there
twice.
-/

namespace OrderStore

/-- How the writers of a stress write their orders. -/
inductive WriteMode where
  /-- One by one, up to a full store. -/
  | append
  /-- One by one, overwriting old orders. -/
  | ring
  /-- All orders of a writer in one batch. -/
  | batch
deriving DecidableEq

/-- Writes orders one by one with the given call and counts those written. -/
def Store.writeEach (call : Store → Order → Bool × Store) (store : Store) :
    List Order → Nat × Store
  | [] => (0, store)
  | order :: orders =>
    let (written, store) := call store order
    let (count, store) := writeEach call store orders
    (if written then count + 1 else count, store)

/-- Writes the orders of one writer and counts those written. -/
def Store.write (mode : WriteMode) (store : Store) (orders : List Order) : Nat × Store :=
  match mode with
  | .append => store.writeEach Store.append orders
  | .ring => store.writeEach Store.appendRing orders
  | .batch => store.appendAll orders

/-- Lets writers write their synthetic orders, one writer after the other, and
counts the orders written. -/
def Store.stress (mode : WriteMode) (records : UInt32) (store : Store) :
    (writers : List Nat) → Nat × Store
  | [] => (0, store)
  | writer :: writers =>
    let (count, store) := store.write mode ((writerIds records writer).map syntheticOrder)
    let (rest, store) := stress mode records store writers
    (count + rest, store)

/-- What an audit finds. -/
structure Audit where
  /-- How many slots hold an order that can be read. -/
  readable : Nat
  /-- How many of them are not synthetic orders. -/
  corrupt : Nat
  /-- The numbers of the orders, in increasing order. -/
  ids : List UInt32
deriving DecidableEq

/-- Whether a list in increasing order holds nothing twice. -/
def isStrictlyIncreasing : List UInt32 → Bool
  | a :: b :: rest => a < b && isStrictlyIncreasing (b :: rest)
  | _ => true

/-- Whether no order is in the store twice. -/
def Audit.isDistinct (a : Audit) : Bool := isStrictlyIncreasing a.ids

/-- Reads every slot of a store. -/
def Store.audit (s : Store) : Audit :=
  let orders := s.contents
  ⟨orders.length, orders.countP (·.isCorrupt), (orders.map (·.id)).mergeSort (· ≤ ·)⟩

end OrderStore
