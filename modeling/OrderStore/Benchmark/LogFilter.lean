import OrderStore.Benchmark.Options
import OrderStore.Pattern.Basic

/-!
# Log filters

What is logged is told by a list of directives, separated by commas. A directive
is a level, or it names a part of the program, a span in brackets, or both, and
then perhaps a level behind an equals sign. A span may name one of its fields in
braces, perhaps with a pattern for its value. As commas separate directives, no
part of a directive can hold one.

Blanks around a directive are passed over while it is read. Yet its parts are
cut out of the text with the blanks, at the places, counted in bytes, at which
they stand in the text without them. So with blanks in front, what is behind an
equals sign is never a level, and a part may even begin or end within a
character.
-/

namespace OrderStore

/-- Why a text is no list of directives. -/
inductive LogFilterError where
  /-- A directive does not have the form of one. -/
  | malformedDirective
  /-- The level of a directive is no level. -/
  | unknownLevel
  /-- The value of a field is no pattern that can be used. -/
  | pattern (fault : PatternError)
  /-- A part of a directive begins or ends within a character. -/
  | splitCharacter
deriving DecidableEq

/-- The fault in words. -/
def LogFilterError.message : LogFilterError → String
  | malformedDirective => "invalid filter directive"
  | unknownLevel =>
    "error parsing level filter: expected one of \"off\", \"error\", \"warn\", \"info\", " ++
      "\"debug\", \"trace\", or a number 0-5"
  | pattern fault => "invalid field filter: " ++ fault.message
  | splitCharacter => "byte index is not a char boundary"

namespace LogFilter

/-! ## Levels and fields -/

/-- The levels by name. -/
def levelNames : List String := ["off", "error", "warn", "info", "debug", "trace"]

/-- Whether a text is a level: a name, its ASCII letters in either case, or a
number up to five. -/
def isLevel (text : String) : Bool :=
  text.toLower ∈ levelNames || (readWord64? text).any (· ≤ 5)

/-- Checks a level that may be left out. -/
def checkLevel (text : List Char) : Except LogFilterError Unit :=
  if text.isEmpty || isLevel (String.ofList text) then .ok () else .error .unknownLevel

/-- Whether a text is a decimal number: digits, perhaps with a point in front of,
between or behind them, and perhaps with an exponent. -/
def isDecimal (text : List Char) : Bool :=
  let digits := text.dropWhile (·.isDigit)
  let hasInteger := !(text.takeWhile (·.isDigit)).isEmpty
  let (hasFraction, rest) :=
    match digits with
    | '.' :: fraction =>
      (!(fraction.takeWhile (·.isDigit)).isEmpty, fraction.dropWhile (·.isDigit))
    | rest => (false, rest)
  let isExponent (text : List Char) : Bool := !text.isEmpty && text.all (·.isDigit)
  (hasInteger || hasFraction) &&
    match rest with
    | [] => true
    | e :: '+' :: exponent => e.toLower == 'e' && isExponent exponent
    | e :: '-' :: exponent => e.toLower == 'e' && isExponent exponent
    | e :: exponent => e.toLower == 'e' && isExponent exponent

/-- Whether a text is a number with a plus sign, which is no pattern. -/
def isPositiveNumber : List Char → Bool
  | '+' :: text =>
    isDecimal text || (String.ofList text).toLower ∈ ["inf", "infinity", "nan"]
  | _ => false

/-- Checks a field: a name, and perhaps behind an equals sign a value, which is a
number or a pattern. Nothing is asked of the name, and what a second equals sign
cuts off is ignored. -/
def checkFieldText (text : List Char) : Except LogFilterError Unit :=
  let value := ((text.dropWhile (· != '=')).drop 1).takeWhile (· != '=')
  if isPositiveNumber value then .ok ()
  else
    match Pattern.check value with
    | .error fault => .error (.pattern fault)
    | .ok () => .ok ()

/-! ## Parts of a text by their places in bytes -/

/-- How many bytes a text takes. -/
def byteLength (text : List Char) : Nat :=
  text.foldr (fun c length => c.utf8Size + length) 0

/-- A text without its first `count` bytes, unless they end within a
character. -/
def dropBytes? : (count : Nat) → List Char → Option (List Char)
  | 0, text => some text
  | _ + 1, [] => none
  | count + 1, c :: text =>
    if c.utf8Size ≤ count + 1 then dropBytes? (count + 1 - c.utf8Size) text else none

/-- The first `count` bytes of a text, unless they end within a character. -/
def takeBytes? : (count : Nat) → List Char → Option (List Char)
  | 0, _ => some []
  | _ + 1, [] => none
  | count + 1, c :: text =>
    if c.utf8Size ≤ count + 1 then
      (takeBytes? (count + 1 - c.utf8Size) text).map (c :: ·)
    else none

/-- The bytes of a text from `first` up to `stop`. -/
def cut (text : List Char) (first stop : Nat) : Except LogFilterError (List Char) :=
  match (dropBytes? first text).bind (takeBytes? (stop - first)) with
  | some part => .ok part
  | none => .error .splitCharacter

/-! ## Directives

Here `whole` is the text with the blanks around it, of which the parts are cut,
and `text` is what is left of the text without them, from byte `place` on. -/

/-- Checks a directive from its level on. -/
def checkLevelAt (whole : List Char) (place : Nat) : Except LogFilterError Unit := do
  checkLevel (← cut whole place (byteLength whole))

/-- Checks what comes behind the span of a directive. -/
def checkBehindSpan (whole : List Char) (place : Nat) : List Char → Except LogFilterError Unit
  | [] => .ok ()
  | '=' :: _ => checkLevelAt whole (place + 1)
  | _ => .error .malformedDirective

/-- Checks a directive from the field of its span on. -/
def checkFieldAt (whole : List Char) (place : Nat) (text : List Char) :
    Except LogFilterError Unit := do
  let field := text.takeWhile (· != '\x7d')
  let stop := place + byteLength field
  match text.drop field.length with
  | [] => .error .malformedDirective
  | _ :: rest =>
    let field ← cut whole place stop
    if field.isEmpty then .error .malformedDirective
    checkFieldText field
    match rest with
    | ']' :: rest => checkBehindSpan whole (stop + 2) rest
    | _ => .error .malformedDirective

/-- Checks a directive from its span on. -/
def checkSpanAt (whole : List Char) (place : Nat) (text : List Char) :
    Except LogFilterError Unit := do
  let name := text.takeWhile fun c => c != ']' && c != '\x7b'
  let stop := place + byteLength name
  match text.drop name.length with
  | [] => .error .malformedDirective
  | c :: rest =>
    let _ ← cut whole place stop
    if c = ']' then checkBehindSpan whole (stop + 1) rest
    else checkFieldAt whole (stop + 1) rest

/-- Checks a directive from its name on. Whatever does not go on with a level or
a span has the form of a name. -/
def checkNameAt (whole : List Char) (text : List Char) : Except LogFilterError Unit := do
  let name := text.takeWhile fun c => c != '=' && c != '['
  let stop := byteLength name
  match text.drop name.length with
  | [] => .ok ()
  | c :: rest =>
    let _ ← cut whole 0 stop
    if c = '=' then checkLevelAt whole (stop + 1)
    else checkSpanAt whole (stop + 1) rest

/-- Whether a name can start with a character. -/
def isNameStart (c : Char) : Bool := c ∈ ['-', ':', '_'] || Unicode.isAlphanumeric c

/-- Checks a directive. -/
def checkDirective (whole : List Char) : Except LogFilterError Unit :=
  match Unicode.strip whole with
  | [] => .error .malformedDirective
  | '[' :: text => checkSpanAt whole 1 text
  | c :: text =>
    if isNameStart c then checkNameAt whole (c :: text) else .error .malformedDirective

/-- The parts of a text between its commas. -/
def splitAtCommas : List Char → List (List Char)
  | [] => [[]]
  | ',' :: text => [] :: splitAtCommas text
  | c :: text =>
    match splitAtCommas text with
    | [] => [[c]]
    | part :: parts => (c :: part) :: parts

/-- Checks directives up to the first that is none. Empty ones are passed over. -/
def checkDirectives : List (List Char) → Except LogFilterError Unit
  | [] => .ok ()
  | [] :: directives => checkDirectives directives
  | directive :: directives =>
    match checkDirective directive with
    | .error fault => .error fault
    | .ok () => checkDirectives directives

/-- Checks a list of directives, and names what is wrong with the first that is
none. -/
def check (text : String) : Except LogFilterError Unit :=
  checkDirectives (splitAtCommas text.toList)

end LogFilter

end OrderStore
