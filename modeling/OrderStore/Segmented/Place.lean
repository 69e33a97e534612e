import OrderStore.Segmented.Basic

/-!
# Placing one record

A write call looks through the segments twice. The first time it waits for
nobody: it peeks for room without the lock, passes over segments whose lock
another call holds, and remembers that it did. Only then it goes round again and
waits for each lock, so that a write never fails because of another one's lock.
Each step is one access to the shared state.
-/

namespace OrderStore

/-- The state that all write calls on a segmented buffer share. -/
structure LockedSegments where
  /-- The buffer. -/
  buffer : SegmentedBuffer
  /-- The segments whose lock some call holds. -/
  held : List Nat
deriving DecidableEq

/-- Which time round a call is on. -/
inductive PlacePass where
  /-- The first: `contended` says whether a held lock was passed over. -/
  | probing (contended : Bool)
  /-- The second. -/
  | waiting
deriving DecidableEq

/-- What a write call does next. In each pass `left` more segments follow the
one with number `index`. -/
inductive PlacePhase where
  /-- Take a number from the write counter. -/
  | number
  /-- See whether the segment has room, without its lock. -/
  | peek (contended : Bool) (index left : Nat)
  /-- Take the segment's lock. -/
  | acquire (pass : PlacePass) (index left : Nat)
  /-- Append the record under the lock. -/
  | append (pass : PlacePass) (index left : Nat)
  /-- Release the lock after a successful or a failed append. -/
  | release (pass : PlacePass) (index left : Nat) (written : Bool)
  /-- Nothing: this is the answer. -/
  | done (written : Bool)
deriving DecidableEq

/-- A write call under way. -/
structure PlaceCall where
  /-- The record to write. -/
  block : Block
  /-- What comes next. -/
  phase : PlacePhase
deriving DecidableEq

namespace PlaceCall

/-- What follows when segment `index` took no record: the next segment, or
another round if a lock was passed over, or the end. -/
def afterRefusal (count : Nat) (pass : PlacePass) (index : Nat) : (left : Nat) → PlacePhase
  | left + 1 =>
    match pass with
    | .probing contended => .peek contended ((index + 1) % count) left
    | .waiting => .acquire .waiting ((index + 1) % count) left
  | 0 =>
    match pass with
    | .probing true => .acquire .waiting ((index + 1) % count) (count - 1)
    | _ => .done false

/-- One step of a write call on the shared state. A call that waits for a lock
which another call holds stays where it is. -/
def step (s : LockedSegments) (p : PlaceCall) : LockedSegments × PlaceCall :=
  let count := s.buffer.segments.size
  match p.phase with
  | .number =>
    let first := s.buffer.wrapIndex s.buffer.writeCounter.toNat
    let buffer := { s.buffer with writeCounter := s.buffer.writeCounter + 1 }
    ({ s with buffer }, { p with phase := .peek false first (count - 1) })
  | .peek contended index left =>
    let phase :=
      if s.buffer.hasRoom index then .acquire (.probing contended) index left
      else afterRefusal count (.probing contended) index left
    (s, { p with phase })
  | .acquire pass index left =>
    if index ∈ s.held then
      match pass with
      | .probing _ => (s, { p with phase := afterRefusal count (.probing true) index left })
      | .waiting => (s, p)
    else ({ s with held := index :: s.held }, { p with phase := .append pass index left })
  | .append pass index left =>
    let written := s.buffer.hasRoom index
    let buffer := s.buffer.modifyRegion index (·.push p.block)
    ({ s with buffer }, { p with phase := .release pass index left written })
  | .release pass index left written =>
    let phase := if written then .done true else afterRefusal count pass index left
    ({ s with held := s.held.erase index }, { p with phase })
  | .done _ => (s, p)

/-- Lets a call take up to `steps` steps on its own; answers whether it wrote
its record. -/
def run : (steps : Nat) → LockedSegments → PlaceCall → Bool × SegmentedBuffer
  | 0, s, p =>
    match p.phase with
    | .done written => (written, s.buffer)
    | _ => (false, s.buffer)
  | steps + 1, s, p =>
    match p.phase with
    | .done written => (written, s.buffer)
    | _ =>
      let (s, p) := step s p
      run steps s p

end PlaceCall

namespace SegmentedBuffer

/-- The most steps a write call takes alone: a number, and for each segment at
most a peek, and to take its lock, append and release. -/
def placeSteps (b : SegmentedBuffer) : Nat := 4 * b.segments.size + 2

/-- Appends an order to the first segment with room, looking from the one that
the write's number points to. -/
def append (b : SegmentedBuffer) (order : Order) : Bool × SegmentedBuffer :=
  PlaceCall.run b.placeSteps ⟨b, []⟩ ⟨encode order, .number⟩

end SegmentedBuffer

end OrderStore
