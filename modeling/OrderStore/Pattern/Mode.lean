import OrderStore.Unicode.Numeric

/-!
# How a pattern is read

Patterns are regular expressions, of which only the form is checked here. What
flags turn on and off decides which characters of the text count and what may be
written in it.
-/

namespace OrderStore

namespace Pattern

/-- What the flags have turned on. -/
structure Mode where
  /-- Whether upper and lower case are the same. -/
  ignoresCase : Bool := false
  /-- Whether characters are matched, or only bytes. -/
  isUnicode : Bool := true
  /-- Whether blanks and comments are left out. -/
  isSpaced : Bool := false
deriving DecidableEq

/-- A text without the blanks and comments in front of it. A comment goes from a
number sign to the end of its line. -/
def skipBlanks : (inComment : Bool) → List Char → List Char
  | _, [] => []
  | true, c :: text => skipBlanks (c != '\n') text
  | false, c :: text =>
    if Unicode.isBlank c then skipBlanks false text
    else if c = '#' then skipBlanks true text
    else c :: text

/-- The first character of a text that is neither blank nor the first number
sign. What the sign starts is looked at like the rest. -/
def firstMark : (hasSign : Bool) → List Char → Option Char
  | _, [] => none
  | hasSign, c :: text =>
    if Unicode.isBlank c then firstMark hasSign text
    else if !hasSign && c = '#' then firstMark true text
    else some c

namespace Mode

/-- A text from the next character on that counts. -/
def skip (m : Mode) (text : List Char) : List Char :=
  if m.isSpaced then skipBlanks false text else text

/-- The character that is looked at to tell what a hyphen in front of the text
means. -/
def peek? (m : Mode) (text : List Char) : Option Char :=
  if m.isSpaced then firstMark false text else text.head?

/-- Whether a flag is on, given whether it was on before. Flags behind a hyphen
are turned off. -/
def flagState (flag : Char) (flags : List Char) (before : Bool) : Bool :=
  if flag ∈ flags then flag ∈ flags.takeWhile (· != '-') else before

/-- The mode changed by flags. Those that do not matter for the form of a pattern
are ignored. -/
def withFlags (m : Mode) (flags : List Char) : Mode where
  ignoresCase := flagState 'i' flags m.ignoresCase
  isUnicode := flagState 'u' flags m.isUnicode
  isSpaced := flagState 'x' flags m.isSpaced

end Mode

/-- Whether a text is a list of flags: none is given twice, and some are behind a
hyphen if there is one. -/
def areFlags (flags : List Char) : Bool :=
  flags.all (· ∈ ['i', 'm', 's', 'U', 'u', 'R', 'x', '-']) && flags.Nodup &&
    flags.getLast? != some '-'

end Pattern

end OrderStore
