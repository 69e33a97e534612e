import OrderStore.Pattern.Atom

/-!
# Classes in brackets

A class lists its members: characters, ranges, other classes. Lists can be
joined by operators, and classes can be nested. As the whole pattern must not be
nested too deeply, the height of a class is found while it is read.
-/

namespace OrderStore

namespace Pattern

/-- A class as far as it has been read. -/
structure Bracket where
  /-- Whether all of it so far is hyphens, which stand for themselves. -/
  isOpening : Bool := true
  /-- How many members there are behind the last operator. -/
  members : Nat := 0
  /-- The greatest height of such a member. -/
  tallest : Nat := 0
  /-- The height of what is in front of the last operator, if there is one. -/
  left : Option Nat := none
deriving DecidableEq

namespace Bracket

/-- The class with another member. -/
def add (b : Bracket) (height : Nat) : Bracket :=
  { b with members := b.members + 1, tallest := max b.tallest height }

/-- The class behind its first hyphens. -/
def settle (b : Bracket) : Bracket := { b with isOpening := false }

/-- The height of the list behind the last operator: several members are one
level more than one. -/
def listHeight (b : Bracket) : Nat := if b.members ≤ 1 then b.tallest else b.tallest + 1

/-- The height of all that has been read. -/
def height (b : Bracket) : Nat :=
  match b.left with
  | none => b.listHeight
  | some left => max left b.listHeight + 1

/-- The class behind an operator. -/
def operator (b : Bracket) : Bracket := { isOpening := false, left := some b.height }

end Bracket

/-- The names of the classes that consist of ASCII characters. -/
def asciiClasses : List String :=
  ["alnum", "alpha", "ascii", "blank", "cntrl", "digit", "graph", "lower", "print", "punct",
    "space", "upper", "word", "xdigit"]

/-- Whether a class that consists of ASCII characters, or its complement, can be
a member of a class. -/
def isNamedAllowed (m : Mode) (negated : Bool) : Bool :=
  if m.isUnicode then !m.ignoresCase else !negated

/-- A class given by name between colons, whose opening bracket has been read:
whether a caret makes it the complement, and what is behind it. -/
def readAsciiClass : List Char → Option (Bool × List Char)
  | ':' :: text =>
    let (negated, text) := match text with
      | '^' :: text => (true, text)
      | text => (false, text)
    let name := String.ofList (text.takeWhile (· != ':'))
    match text.dropWhile (· != ':') with
    | ':' :: ']' :: rest => if name ∈ asciiClasses then some (negated, rest) else none
    | _ => none
  | _ => none

/-- What is behind the opening of a class. A caret there makes it the complement,
which for bytes would match parts of characters. -/
def openBracket (m : Mode) (text : List Char) : Option (List Char) :=
  match m.skip text with
  | '^' :: text => if m.isUnicode then some text else none
  | text => some text

/-- One character or escape of a class, and what is behind it. -/
def readMember (m : Mode) : List Char → Option (Atom × List Char)
  | [] => none
  | '\\' :: text => readEscape m text
  | c :: text => some (.literal c false, text)

/-- The last character of a range that starts with `first`: what is behind it. -/
def readRangeEnd (m : Mode) (first : Atom) (text : List Char) : Option (List Char) :=
  match first, readMember m (m.skip text) with
  | .literal a _, some (.literal b isByte, rest) =>
    if a ≤ b && Atom.isMember m (.literal b isByte) then some rest else none
  | _, _ => none

/-- What is behind a member of a class or a range of members. A hyphen makes a
range unless another hyphen or the end of the class is behind it. -/
def readRange (m : Mode) (text : List Char) : Option (List Char) :=
  match readMember m text with
  | none => none
  | some (first, text) =>
    if first.isMember m then
      match m.skip text with
      | '-' :: rest =>
        if m.peek? rest ∈ [some ']', some '-'] then some ('-' :: rest)
        else readRangeEnd m first rest
      | text => some text
    else none

/-- The height of the innermost open class and all around it, and what is behind
the outermost one. -/
def readBracket (m : Mode) : (fuel : Nat) → (outer : List Bracket) → (inner : Bracket) →
    List Char → Option (Nat × List Char)
  | 0, _, _, _ => none
  | fuel + 1, outer, inner, text =>
    let literalAllowed := Atom.isMember m (.literal '-' false)
    match m.skip text with
    | [] => none
    | c :: text =>
      if inner.isOpening && c == '-' then
        if literalAllowed then readBracket m fuel outer (inner.add 0) text else none
      else if inner.isOpening && inner.members == 0 && c == ']' then
        if literalAllowed then readBracket m fuel outer (inner.settle.add 0) text else none
      else
        let inner := inner.settle
        match c, text with
        | ']', _ =>
          let height := inner.height + 1
          match outer with
          | [] => some (height, text)
          | around :: outer => readBracket m fuel outer (around.add height) text
        | '[', _ =>
          match readAsciiClass text with
          | some (negated, rest) =>
            if isNamedAllowed m negated then
              readBracket m fuel outer (inner.add 0) rest
            else none
          | none =>
            match openBracket m text with
            | some rest => readBracket m fuel (inner :: outer) {} rest
            | none => none
        | '&', '&' :: text => readBracket m fuel outer inner.operator text
        | '-', '-' :: text => readBracket m fuel outer inner.operator text
        | '~', '~' :: text => readBracket m fuel outer inner.operator text
        | c, text =>
          match readRange m (c :: text) with
          | some rest => readBracket m fuel outer (inner.add 0) rest
          | none => none

/-- The height of the class whose opening bracket has been read, and what is
behind it. -/
def readClass (m : Mode) (text : List Char) : Option (Nat × List Char) :=
  match openBracket m text with
  | some rest => readBracket m (rest.length + 1) [] {} rest
  | none => none

end Pattern

end OrderStore
