import OrderStore.Pattern.Bracket

/-!
# Patterns

A pattern is a sequence of atoms, classes and groups, of which some are
repeated; bars divide it into alternatives. It is read once from left to right,
with the open groups on a stack, and must not be nested too deeply.

A pattern without faults can still ask for what cannot be matched: a place where
a word starts or ends, unless words consist of bytes.
-/

namespace OrderStore

/-- Why a pattern cannot be used. -/
inductive PatternError where
  /-- It does not have the form of one. -/
  | malformed
  /-- It looks for boundaries of words of any characters. -/
  | unicodeBoundary
deriving DecidableEq

/-- The fault in words. -/
def PatternError.message : PatternError → String
  | malformed => "error building NFA"
  | unicodeBoundary =>
    "unsupported regex feature for DFAs: cannot build DFAs for regexes with Unicode word " ++
      "boundaries; switch to ASCII word boundaries, or heuristically enable Unicode word " ++
      "boundaries or use a different regex engine"

namespace Pattern

/-- How deeply a pattern may be nested. -/
def maxHeight : Nat := 250

/-- A group as far as it has been read. -/
structure Group where
  /-- How it is read from here on. -/
  mode : Mode := {}
  /-- How many parts there are behind the last bar. -/
  parts : Nat := 0
  /-- The greatest height of such a part but the last. -/
  tallest : Nat := 0
  /-- The height of the last part. -/
  last : Nat := 0
  /-- Whether there is a last part and it can be repeated. -/
  isRepeatable : Bool := false
  /-- The greatest height of an alternative, if there is a bar. -/
  alternatives : Option Nat := none
deriving DecidableEq

namespace Group

/-- The group with another part. -/
def add (g : Group) (height : Nat) (isRepeatable : Bool) : Group :=
  { g with
    parts := g.parts + 1
    tallest := max g.tallest g.last
    last := height
    isRepeatable }

/-- The group with its last part repeated. -/
def repeatLast (g : Group) : Group := { g with last := g.last + 1 }

/-- The height of what is behind the last bar: several parts are one level more
than one. -/
def sequenceHeight (g : Group) : Nat :=
  let tallest := max g.tallest g.last
  if g.parts ≤ 1 then tallest else tallest + 1

/-- The group behind a bar. -/
def divide (g : Group) : Group :=
  { mode := g.mode, alternatives := some (max (g.alternatives.getD 0) g.sequenceHeight) }

/-- The height of all that has been read. -/
def height (g : Group) : Nat :=
  match g.alternatives with
  | none => g.sequenceHeight
  | some tallest => max tallest g.sequenceHeight + 1

end Group

/-- What has been read of a pattern. -/
structure Progress where
  /-- The innermost group, or the whole pattern. -/
  inner : Group := {}
  /-- What is around it, the innermost first. -/
  outer : List Group := []
  /-- The names of groups. -/
  names : List String := []
  /-- Whether boundaries of words of any characters are looked for. -/
  hasBoundary : Bool := false
deriving DecidableEq

namespace Progress

/-- Adds a part to the innermost group. -/
def add (p : Progress) (height : Nat) : Progress := { p with inner := p.inner.add height true }

/-- Adds an atom. -/
def addAtom (p : Progress) (atom : Atom) : Progress :=
  let hasBoundary := p.hasBoundary || (atom == .wordBoundary && p.inner.mode.isUnicode)
  { p.add 0 with hasBoundary }

/-- Enters a group with the given flags. -/
def enter (p : Progress) (flags : List Char) : Progress :=
  { p with inner := { mode := p.inner.mode.withFlags flags }, outer := p.inner :: p.outer }

/-- Leaves the innermost group; the mode is again the one in front of it. -/
def leave? (p : Progress) : Option Progress :=
  match p.outer with
  | [] => none
  | around :: outer => some ({ p with inner := around, outer }.add (p.inner.height + 1))

/-- Sets flags for the rest of the innermost group. -/
def setFlags (p : Progress) (flags : List Char) : Progress :=
  { p with inner := { p.inner.add 0 false with mode := p.inner.mode.withFlags flags } }

end Progress

/-- Whether a text can be the name of a group. -/
def isGroupName : List Char → Bool
  | [] => false
  | c :: rest =>
    (c == '_' || Unicode.isAlphabetic c) &&
      rest.all fun c => c ∈ ['_', '.', '[', ']'] || Unicode.isAlphanumeric c

/-- Enters a group whose name comes next. No two groups have one name. -/
def readName (p : Progress) (text : List Char) : Option (Progress × List Char) :=
  let name := String.ofList (text.takeWhile (· != '>'))
  match text.dropWhile (· != '>') with
  | [] => none
  | _ :: rest =>
    if isGroupName name.toList && name ∉ p.names then
      some ({ p.enter [] with names := name :: p.names }, rest)
    else none

/-- Enters a group that has flags, or sets flags in the present one. -/
def readFlags (p : Progress) (text : List Char) : Option (Progress × List Char) :=
  let flags := text.takeWhile fun c => c != ':' && c != ')'
  if !areFlags flags then none
  else
    match text.dropWhile fun c => c != ':' && c != ')' with
    | ':' :: rest => some (p.enter flags, rest)
    | ')' :: rest => if flags.isEmpty then none else some (p.setFlags flags, rest)
    | _ => none

/-- Understands what comes behind an opening parenthesis. -/
def readGroup (p : Progress) (text : List Char) : Option (Progress × List Char) :=
  match p.inner.mode.skip text with
  | '?' :: 'P' :: '<' :: text => readName p text
  | '?' :: '<' :: text => readName p text
  | '?' :: text => readFlags p text
  | text => some (p.enter [], text)

/-- Repeats the last part. A question mark right behind a repetition belongs to
it. -/
def readRepetition (p : Progress) (text : List Char) : Option (Progress × List Char) :=
  if p.inner.isRepeatable then
    let p := { p with inner := p.inner.repeatLast }
    match text with
    | '?' :: text => some (p, text)
    | text => some (p, text)
  else none

/-- Reads one part, or one character that joins or divides parts. A repetition by
number is refused, because a field ends with the first closing brace. -/
def readPart (p : Progress) (c : Char) (text : List Char) : Option (Progress × List Char) :=
  let mode := p.inner.mode
  let ifAllowed (atom : Atom) (text : List Char) : Option (Progress × List Char) :=
    if atom.isAllowed mode then some (p.addAtom atom, text) else none
  match c with
  | '(' => readGroup p text
  | ')' => p.leave?.map (·, text)
  | '|' => some ({ p with inner := p.inner.divide }, text)
  | '*' => readRepetition p text
  | '+' => readRepetition p text
  | '?' => readRepetition p text
  | '\x7b' => none
  | '[' => (readClass mode text).map fun (height, rest) => (p.add height, rest)
  | '\\' => (readEscape mode text).bind fun (atom, rest) => ifAllowed atom rest
  | '.' => if mode.isUnicode then some (p.add 0, text) else none
  | '^' => ifAllowed .textEnd text
  | '$' => ifAllowed .textEnd text
  | c => ifAllowed (.literal c false) text

/-- What a whole text has been read as, if nothing in it is at fault and every
group is closed. -/
def readAll : (fuel : Nat) → Progress → List Char → Option Progress
  | 0, _, _ => none
  | fuel + 1, p, text =>
    match p.inner.mode.skip text with
    | [] => if p.outer.isEmpty && p.inner.height ≤ maxHeight then some p else none
    | c :: text =>
      match readPart p c text with
      | some (p, rest) => readAll fuel p rest
      | none => none

/-- Checks whether a text is a pattern that can be used. -/
def check (text : List Char) : Except PatternError Unit :=
  match readAll (text.length + 1) {} text with
  | none => .error .malformed
  | some p => if p.hasBoundary then .error .unicodeBoundary else .ok ()

end Pattern

end OrderStore
