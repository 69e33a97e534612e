import OrderStore.Optimistic.Basic

/-!
# Reading without a lock

A read takes a stamp while no write is under way, copies the bytes, and trusts
them only if no write has begun since. Otherwise it starts over, as often as the
retry policy allows.
-/

namespace OrderStore

/-- What a read call does next. -/
inductive ReadPhase where
  /-- Load the stamp of finished writes; `retries` more attempts are left. -/
  | loadFinished (retries : Nat)
  /-- Load the stamp of begun writes and compare it with `finished`. -/
  | loadBegun (retries : Nat) (finished : UInt64)
  /-- Load the position and see whether the record is written. -/
  | loadPosition (retries : Nat) (stamp : UInt64)
  /-- Copy the bytes of the record. -/
  | copy (retries : Nat) (stamp : UInt64)
  /-- Load the stamp of begun writes again and compare it with `stamp`. -/
  | check (retries : Nat) (stamp : UInt64) (block : Block)
  /-- Nothing: this is the answer. -/
  | done (order : Option Order)
deriving DecidableEq

/-- A read call under way. -/
structure ReadCall where
  /-- Byte offset to read at. -/
  offset : Nat
  /-- What comes next. -/
  phase : ReadPhase
deriving DecidableEq

namespace ReadPhase

/-- The next attempt if one is left, else the end of the call with nothing
read. -/
def attempt : (retries : Nat) → ReadPhase
  | 0 => done none
  | retries + 1 => loadFinished retries

end ReadPhase

namespace ReadCall

/-- A call that reads the record at `offset`. -/
def start (policy : RetryPolicy) (offset : Nat) : ReadCall :=
  ⟨offset, .attempt policy.readRetries.toNat⟩

/-- One step of a read call, which changes no shared state. -/
def step (b : OptimisticBuffer) (r : ReadCall) : ReadCall :=
  let phase :=
    match r.phase with
    | .loadFinished retries => .loadBegun retries b.finished
    | .loadBegun retries finished =>
      if finished = b.begun then .loadPosition retries b.begun else .attempt retries
    | .loadPosition retries stamp =>
      if b.tracker.isWritten r.offset then .copy retries stamp else .done none
    | .copy retries stamp =>
      match b.arena.read r.offset with
      | none => .done none
      | some block => .check retries stamp block
    | .check retries stamp block =>
      if b.begun = stamp then .done (decodeBlock block).toOption else .attempt retries
    | .done order => .done order
  { r with phase }

/-- Lets a call take up to `steps` steps while nothing else happens. -/
def run : (steps : Nat) → OptimisticBuffer → ReadCall → Option Order
  | 0, _, r =>
    match r.phase with
    | .done order => order
    | _ => none
  | steps + 1, b, r =>
    match r.phase with
    | .done order => order
    | _ => run steps b (step b r)

end ReadCall

namespace OptimisticBuffer

/-- The order at `offset`, if a record starts there and is written. -/
def read (b : OptimisticBuffer) (offset : Nat) : Option Order :=
  ReadCall.run (5 * b.policy.readRetries.toNat) b (.start b.policy offset)

end OptimisticBuffer

end OrderStore
