import OrderStore.Record.Basic

/-!
# Configuration of a store

Sizes and retry limits, their defaults, and which of them make a usable store.
-/

namespace OrderStore

/-- How long a lock-free writer or reader tries. -/
structure RetryPolicy where
  /-- Failed claims that are retried at once, before the writer sleeps. -/
  spinRetries : UInt32 := 10
  /-- How often a write tries to claim room. -/
  maxAttempts : UInt32 := 100
  /-- How often a read starts over while writers are about. -/
  readRetries : UInt32 := 10
  /-- Sleep per attempt once spinning is over; it grows with the attempts. -/
  backoffStepNanos : UInt64 := 1000
deriving DecidableEq

/-- What every kind of store is built from. -/
structure StoreConfig where
  /-- Size of the store in bytes. -/
  capacity : UInt64 := 1048576
  /-- Into how many segments a segmented store is split. -/
  segmentCount : UInt64 := 16
  /-- Retry limits of the lock-free store. -/
  optimistic : RetryPolicy := {}
deriving DecidableEq

/-- Why a store cannot be built. -/
inductive ConfigError where
  /-- Not even one record fits. -/
  | capacityTooSmall (capacity : UInt64)
  /-- There would be no segment at all. -/
  | noSegments
  /-- Not even one record fits into a segment. -/
  | segmentTooSmall (capacity segmentCount : UInt64)
  /-- Writes would give up before they start. -/
  | noWriteAttempts
  /-- Reads would give up before they start. -/
  | noReadAttempts
  /-- The name is no store's. -/
  | unknownStrategy (name : String)
deriving DecidableEq

/-- The fault in words. -/
def ConfigError.message : ConfigError → String
  | capacityTooSmall capacity =>
    s!"capacity {capacity} bytes is smaller than one {recordSize}-byte record"
  | noSegments => "segment count must be at least 1"
  | segmentTooSmall capacity segmentCount =>
    s!"{capacity} bytes over {segmentCount} segments leaves less than one " ++
      s!"{recordSize}-byte record per segment"
  | noWriteAttempts => "optimistic max_attempts must be at least 1"
  | noReadAttempts => "optimistic read_retries must be at least 1"
  | unknownStrategy name =>
    s!"unknown strategy `{name}` (expected exclusive, optimistic, read-write or segmented)"

namespace RetryPolicy

/-- Nanoseconds to sleep after the given attempt, at most the largest word. -/
def backoffFor (p : RetryPolicy) (attempt : UInt32) : UInt64 :=
  UInt64.ofNat (min (p.backoffStepNanos.toNat * attempt.toNat) (UInt64.size - 1))

/-- Whether writes and reads get at least one attempt. -/
def validate (p : RetryPolicy) : Except ConfigError Unit :=
  if p.maxAttempts = 0 then .error .noWriteAttempts
  else if p.readRetries = 0 then .error .noReadAttempts
  else .ok ()

end RetryPolicy

namespace StoreConfig

/-- How many whole records the capacity holds. -/
def recordCapacity (c : StoreConfig) : Nat := c.capacity.toNat / recordSize

/-- Whether every kind of store can be built; the first fault wins. -/
def validate (c : StoreConfig) : Except ConfigError Unit :=
  if c.capacity.toNat < recordSize then .error (.capacityTooSmall c.capacity)
  else if c.segmentCount = 0 then .error .noSegments
  else if c.capacity.toNat / c.segmentCount.toNat < recordSize then
    .error (.segmentTooSmall c.capacity c.segmentCount)
  else c.optimistic.validate

end StoreConfig

end OrderStore
