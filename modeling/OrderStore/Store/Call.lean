import OrderStore.Store

/-!
# Calls on a store

A history is a list of calls made on a store one after another. Every call has
an answer, and two stores can be told apart only by the answers that some
history gets from them.
-/

namespace OrderStore

/-- A call on a store. -/
inductive Call where
  /-- Append an order. -/
  | append (order : Order)
  /-- Append orders up to the first that does not fit. -/
  | appendAll (orders : List Order)
  /-- Append an order, overwriting old ones in a full store. -/
  | appendRing (order : Order)
  /-- Read the order at a byte offset. -/
  | read (offset : Nat)
  /-- Read the orders at several byte offsets. -/
  | readMany (offsets : List Nat)
  /-- Empty the store and zero its bytes. -/
  | reset
  /-- Empty the store and leave its bytes. -/
  | forceReset
  /-- Ask for the bytes written. -/
  | used
  /-- Ask for the bytes still free. -/
  | remaining
  /-- Ask how many whole records still fit. -/
  | remainingRecords
  /-- Ask for the size in bytes. -/
  | capacity
  /-- Ask for the usage. -/
  | status
  /-- Ask whether the used share is above a threshold. -/
  | isNearFull (threshold : Binary64)
deriving DecidableEq

/-- What a call answers. -/
inductive Answer where
  /-- The call is over, and there is nothing to say. -/
  | nothing
  /-- Whether a write was successful, or yes or no to a question. -/
  | flag (value : Bool)
  /-- A number of records or bytes. -/
  | number (value : Nat)
  /-- The order read, if there is one. -/
  | order (order : Option Order)
  /-- The orders read at each of several offsets. -/
  | orders (orders : List (Option Order))
  /-- The usage of the store. -/
  | status (status : BufferStatus)
deriving DecidableEq

namespace Store

/-- Makes one call. -/
def perform (s : Store) : Call → Answer × Store
  | .append order => (s.append order).map .flag id
  | .appendAll orders => (s.appendAll orders).map .number id
  | .appendRing order => (s.appendRing order).map .flag id
  | .read offset => (.order (s.read offset), s)
  | .readMany offsets => (.orders (s.readMany offsets), s)
  | .reset => (.nothing, s.reset)
  | .forceReset => (.nothing, s.forceReset)
  | .used => (.number s.used, s)
  | .remaining => (.number s.remaining, s)
  | .remainingRecords => (.number s.remainingRecords, s)
  | .capacity => (.number s.capacity, s)
  | .status => (.status s.status, s)
  | .isNearFull threshold => (.flag (s.isNearFull threshold), s)

/-- Makes calls one after another. -/
def performAll (s : Store) : List Call → List Answer × Store
  | [] => ([], s)
  | call :: calls =>
    let (answer, s) := s.perform call
    let (answers, s) := s.performAll calls
    (answer :: answers, s)

/-- The answers to a history of calls. -/
def answers (s : Store) (calls : List Call) : List Answer := (s.performAll calls).1

/-- The store after a history of calls. -/
def after (s : Store) (calls : List Call) : Store := (s.performAll calls).2

end Store

end OrderStore
