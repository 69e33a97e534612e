/-!
# Fitting a symbol into its field

A record keeps at most 31 bytes of a symbol. A longer one is cut at the last
character boundary that fits, so that no character is split.
-/

namespace OrderStore

/-- How many bytes of a symbol a record can hold. -/
def symbolCapacity : Nat := 31

/-- The last character boundary of `s` at or before byte `offset`, found by
stepping back one byte at a time. -/
def boundaryAtOrBefore (s : String) : (offset : Nat) → s.Pos
  | 0 => s.startPos
  | offset + 1 =>
    if h : String.Pos.Raw.IsValid s ⟨offset + 1⟩ then ⟨⟨offset + 1⟩, h⟩
    else boundaryAtOrBefore s offset

/-- The longest prefix of `s` that a record can hold. -/
def truncateSymbol (s : String) : String :=
  if s.utf8ByteSize ≤ symbolCapacity then s
  else s.extract s.startPos (boundaryAtOrBefore s symbolCapacity)

end OrderStore
