/-!
# Reading JSON text

What every part of the reader shares: the three ways in which a text can fail
to hold the wanted value, the characters between tokens, and fixed words.
-/

namespace OrderStore

namespace Json

/-- Why a text does not hold the wanted value. -/
inductive Fault where
  /-- A character that no JSON text could have there. -/
  | malformed
  /-- The text ends too early. -/
  | truncated
  /-- A JSON value, but not one of the wanted kind. -/
  | mismatched
deriving DecidableEq

/-- A value read from the front of a text and the text behind it. -/
abbrev Parsed (α : Type) := Except Fault (α × List Char)

/-- Whether a character may stand between two tokens. -/
def isBlank (c : Char) : Bool := c = ' ' ∨ c = '\n' ∨ c = '\t' ∨ c = '\r'

/-- The text from its next token on. -/
def skipBlank (text : List Char) : List Char := text.dropWhile isBlank

/-- Whether a character is a decimal digit. -/
def isDigit (c : Char) : Bool := '0' ≤ c ∧ c ≤ '9'

/-- The value of a decimal digit. -/
def digitValue (c : Char) : Nat := c.toNat - '0'.toNat

/-- The value of a hexadecimal digit in either case. -/
def hexValue? (c : Char) : Option Nat :=
  if isDigit c then some (digitValue c)
  else if 'a' ≤ c ∧ c ≤ 'f' then some (c.toNat - 'a'.toNat + 10)
  else if 'A' ≤ c ∧ c ≤ 'F' then some (c.toNat - 'A'.toNat + 10)
  else none

/-- The text behind a fixed word, read character by character. -/
def expect : (word text : List Char) → Except Fault (List Char)
  | [], text => .ok text
  | _ :: _, [] => .error .truncated
  | w :: word, c :: text => if c = w then expect word text else .error .malformed

/-- How many bytes a text takes in UTF-8. -/
def utf8Length (text : List Char) : Nat :=
  text.foldr (fun c length => c.utf8Size + length) 0

/-- The fault of a text in which one of the next `wanted` bytes is no
hexadecimal digit. A text too short for them counts as truncated, whatever it
holds. -/
def hexFault (wanted : Nat) (text : List Char) : Fault :=
  if utf8Length text < wanted then .truncated else .malformed

end Json

end OrderStore
