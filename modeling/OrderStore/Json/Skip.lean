import OrderStore.Json.Basic

/-!
# Skipping a value

Members that nobody asked for are only checked for their form. The checker reads
one character at a time and remembers the brackets that are open, so that values
may be nested to any depth. It is more lenient than the readers of wanted
values: numbers may have any size and surrogates may stand alone.
-/

namespace OrderStore

namespace Json

namespace Skip

/-- An open bracket. -/
inductive Bracket where
  | array
  | object
deriving DecidableEq

/-- What may come next. `isKey` tells the strings in front of a colon from
those that are values. -/
inductive State where
  /-- A value. -/
  | value
  /-- A value, or the end of an array that has just been opened. -/
  | firstItem
  /-- A key, or the end of an object that has just been opened. -/
  | firstKey
  /-- A key. -/
  | key
  /-- The colon behind a key. -/
  | colon
  /-- A comma or a closing bracket, behind a value. -/
  | afterValue
  /-- The rest of a string. -/
  | quoted (isKey : Bool)
  /-- The character behind a backslash. -/
  | escape (isKey : Bool)
  /-- `left` more digits of an escape by number. -/
  | hex (isKey : Bool) (left : Nat)
  /-- The rest of a fixed word. -/
  | word (rest : List Char)
  /-- The first digit of a negative number. -/
  | minus
  /-- What may follow a leading zero. -/
  | zero
  /-- More integer digits, or what may follow them. -/
  | digits
  /-- The first digit behind the decimal point. -/
  | point
  /-- More digits of the fraction, or what may follow them. -/
  | fraction
  /-- The sign or the first digit of the exponent. -/
  | mark
  /-- The first digit of an exponent with a sign. -/
  | sign
  /-- More digits of the exponent, or what may follow them. -/
  | exponent
deriving DecidableEq

/-- What one character of the text does. -/
inductive Move where
  /-- It leads on. -/
  | enter (state : State) (brackets : List Bracket)
  /-- It is the last character of the whole value. -/
  | last
  /-- The whole value ended in front of it. -/
  | behind
  /-- It cannot stand here. -/
  | fail
deriving DecidableEq

/-- What the last character of a value does. -/
def complete : (brackets : List Bracket) → Move
  | [] => .last
  | brackets => .enter .afterValue brackets

/-- What a character does behind a complete value. -/
def afterValue (c : Char) : (brackets : List Bracket) → Move
  | [] => .behind
  | .array :: outer =>
    if isBlank c then .enter .afterValue (.array :: outer)
    else if c = ',' then .enter .value (.array :: outer)
    else if c = ']' then complete outer
    else .fail
  | .object :: outer =>
    if isBlank c then .enter .afterValue (.object :: outer)
    else if c = ',' then .enter .key (.object :: outer)
    else if c = '\x7d' then complete outer
    else .fail

/-- What the first character of a value does. -/
def startValue (c : Char) (brackets : List Bracket) : Move :=
  if c = '"' then .enter (.quoted false) brackets
  else if c = '[' then .enter .firstItem (.array :: brackets)
  else if c = '\x7b' then .enter .firstKey (.object :: brackets)
  else if c = 'n' then .enter (.word ['u', 'l', 'l']) brackets
  else if c = 't' then .enter (.word ['r', 'u', 'e']) brackets
  else if c = 'f' then .enter (.word ['a', 'l', 's', 'e']) brackets
  else if c = '-' then .enter .minus brackets
  else if c = '0' then .enter .zero brackets
  else if isDigit c then .enter .digits brackets
  else .fail

/-- What a character does behind the integer digits of a number. -/
def afterInteger (c : Char) (brackets : List Bracket) : Move :=
  if c = '.' then .enter .point brackets
  else if c = 'e' ∨ c = 'E' then .enter .mark brackets
  else afterValue c brackets

/-- What the character `c` does in a state. -/
def move (state : State) (brackets : List Bracket) (c : Char) : Move :=
  match state with
  | .value => if isBlank c then .enter .value brackets else startValue c brackets
  | .firstItem =>
    if isBlank c then .enter .firstItem brackets
    else if c = ']' then complete brackets.tail
    else startValue c brackets
  | .firstKey =>
    if isBlank c then .enter .firstKey brackets
    else if c = '\x7d' then complete brackets.tail
    else if c = '"' then .enter (.quoted true) brackets
    else .fail
  | .key =>
    if isBlank c then .enter .key brackets
    else if c = '"' then .enter (.quoted true) brackets
    else .fail
  | .colon =>
    if isBlank c then .enter .colon brackets
    else if c = ':' then .enter .value brackets
    else .fail
  | .afterValue => afterValue c brackets
  | .quoted isKey =>
    if c = '"' then (if isKey then .enter .colon brackets else complete brackets)
    else if c = '\\' then .enter (.escape isKey) brackets
    else if c < ' ' then .fail
    else .enter (.quoted isKey) brackets
  | .escape isKey =>
    if c = 'u' then .enter (.hex isKey 4) brackets
    else if c ∈ ['"', '\\', '/', 'b', 'f', 'n', 'r', 't'] then .enter (.quoted isKey) brackets
    else .fail
  | .hex isKey left =>
    if (hexValue? c).isNone then .fail
    else if 1 < left then .enter (.hex isKey (left - 1)) brackets
    else .enter (.quoted isKey) brackets
  | .word [] => .fail
  | .word [w] => if c = w then complete brackets else .fail
  | .word (w :: rest) => if c = w then .enter (.word rest) brackets else .fail
  | .minus =>
    if c = '0' then .enter .zero brackets
    else if isDigit c then .enter .digits brackets
    else .fail
  | .zero => if isDigit c then .fail else afterInteger c brackets
  | .digits => if isDigit c then .enter .digits brackets else afterInteger c brackets
  | .point => if isDigit c then .enter .fraction brackets else .fail
  | .fraction =>
    if isDigit c then .enter .fraction brackets
    else if c = 'e' ∨ c = 'E' then .enter .mark brackets
    else afterValue c brackets
  | .mark =>
    if c = '+' ∨ c = '-' then .enter .sign brackets
    else if isDigit c then .enter .exponent brackets
    else .fail
  | .sign => if isDigit c then .enter .exponent brackets else .fail
  | .exponent => if isDigit c then .enter .exponent brackets else afterValue c brackets

/-- What the end of the text means in a state. A number that lacks a digit is
malformed even there; a complete one ends the value if no bracket is open. -/
def atEnd (state : State) (brackets : List Bracket) : Except Fault (List Char) :=
  match state with
  | .minus | .point | .mark | .sign => .error .malformed
  | .zero | .digits | .fraction | .exponent =>
    if brackets.isEmpty then .ok [] else .error .truncated
  | _ => .error .truncated

/-- How many digits an escape by number still wants. -/
def State.wanted : State → Nat
  | hex _ left => left
  | _ => 0

/-- The text behind a value, from the given state on. -/
def run : State → List Bracket → List Char → Except Fault (List Char)
  | state, brackets, [] => atEnd state brackets
  | state, brackets, c :: text =>
    match move state brackets c with
    | .enter state brackets => run state brackets text
    | .last => .ok text
    | .behind => .ok (c :: text)
    | .fail => .error (hexFault state.wanted (c :: text))

end Skip

/-- The text behind the value at its front. -/
def skipValue (text : List Char) : Except Fault (List Char) := Skip.run .value [] text

end Json

end OrderStore
