import OrderStore.Pattern.Mode

/-!
# Atoms

The smallest parts of a pattern: characters, escapes, and the classes and places
that escapes stand for.

There are no tables of character properties. So a class of characters that needs
one is refused, and so is ignoring the case of characters; of bytes both are
possible, as long as only ASCII characters can be matched in part.
-/

namespace OrderStore

namespace Pattern

/-- A part of a pattern that has no parts. -/
inductive Atom where
  /-- One character; `isByte` says that it is written as two hexadecimal digits,
  and so stands for a byte where bytes are matched. -/
  | literal (c : Char) (isByte : Bool)
  /-- The digits, the blanks or the characters of words, or all others. -/
  | shorthand (negated : Bool)
  /-- The start or the end of the text. -/
  | textEnd
  /-- A place where a word starts or ends, or where none does. -/
  | wordBoundary
deriving DecidableEq

namespace Atom

/-- Whether an atom can be matched by itself. -/
def isAllowed (m : Mode) : Atom → Bool
  | literal c isByte => if m.isUnicode then !m.ignoresCase else !isByte || c.toNat < 128
  | shorthand negated => !m.isUnicode && !negated
  | textEnd => true
  | wordBoundary => true

/-- Whether an atom can be a member of a class. -/
def isMember (m : Mode) : Atom → Bool
  | literal c _ => if m.isUnicode then !m.ignoresCase else c.toNat < 128
  | shorthand negated => !m.isUnicode && !negated
  | textEnd => false
  | wordBoundary => false

end Atom

/-- The digit that a character stands for in base sixteen. -/
def hexDigit? (c : Char) : Option Nat :=
  if '0' ≤ c ∧ c ≤ '9' then some (c.toNat - '0'.toNat)
  else if 'a' ≤ c ∧ c ≤ 'f' then some (c.toNat - 'a'.toNat + 10)
  else if 'A' ≤ c ∧ c ≤ 'F' then some (c.toNat - 'A'.toNat + 10)
  else none

/-- The number that comes next with `digits` digits in base sixteen, behind the
digits of `value`, and what is behind it. -/
def readHex (m : Mode) : (digits value : Nat) → List Char → Option (Nat × List Char)
  | 0, value, text => some (value, text)
  | digits + 1, value, text =>
    match m.skip text with
    | [] => none
    | c :: text =>
      match hexDigit? c with
      | some digit => readHex m digits (16 * value + digit) text
      | none => none

/-- The character that comes next by its number with `digits` digits. -/
def readCode (m : Mode) (digits : Nat) (text : List Char) : Option (Atom × List Char) :=
  match readHex m digits 0 text with
  | some (n, rest) =>
    if n.isValidChar then some (.literal (Char.ofNat n) (digits == 2), rest) else none
  | none => none

/-- The control character that a letter stands for. -/
def control? : Char → Option Char
  | 'a' => some '\x07'
  | 't' => some '\x09'
  | 'n' => some '\x0a'
  | 'v' => some '\x0b'
  | 'f' => some '\x0c'
  | 'r' => some '\x0d'
  | _ => none

/-- Whether a character stands for itself behind a backslash. -/
def isEscapable (c : Char) : Bool :=
  c.toNat < 128 && !c.isAlphanum && c != '<' && c != '>'

/-- The atom that a backslash starts, and what is behind it. Classes by the name
of a property would need a table. -/
def readEscape (m : Mode) : List Char → Option (Atom × List Char)
  | [] => none
  | 'x' :: text => readCode m 2 text
  | 'u' :: text => readCode m 4 text
  | 'U' :: text => readCode m 8 text
  | c :: text =>
    if c ∈ ['d', 's', 'w'] then some (.shorthand false, text)
    else if c ∈ ['D', 'S', 'W'] then some (.shorthand true, text)
    else if c ∈ ['A', 'z'] then some (.textEnd, text)
    else if c ∈ ['b', 'B', '<', '>'] then some (.wordBoundary, text)
    else
      match control? c with
      | some control => some (.literal control false, text)
      | none => if isEscapable c then some (.literal c false, text) else none

end Pattern

end OrderStore
